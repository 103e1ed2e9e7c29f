import Kademlia.Lib.BigEndian

/-!
# Codecs

A codec writes a value as bytes and reads it from the front of a string of bytes, so that the
codec of a record is made of those of its fields.  What is written is read back when that
holds of every part, and what is cut off is not read when no part looks behind its own bytes:
each way to put codecs together has a rule for either, and nothing is said about values that a
codec is not meant for.
-/

namespace Kademlia
namespace Lib

universe u v

structure Codec (α : Type u) where
  encode : α → List UInt8
  decode : List UInt8 → Option (α × List UInt8)

namespace Codec

variable {α : Type u} {β : Type v}

/-- A value is read back, whatever follows it. -/
def Inverts (codec : Codec α) (a : α) : Prop :=
  ∀ rest, codec.decode (codec.encode a ++ rest) = some (a, rest)

def unit : Codec Unit where
  encode _ := []
  decode bytes := some ((), bytes)

/-- Bytes as they are, `width` of them. -/
def fixed (width : Nat) : Codec (List UInt8) where
  encode bytes := bytes
  decode bytes :=
    if width ≤ bytes.length then some (bytes.take width, bytes.drop width) else none

def map (codec : Codec α) (make : α → β) (parts : β → α) : Codec β where
  encode b := codec.encode (parts b)
  decode bytes := (codec.decode bytes).map fun (a, rest) => (make a, rest)

/-- A number in `width` bytes, the least significant one first. -/
def unsigned (width : Nat) : Codec Nat :=
  (fixed width).map (fun bytes => BigEndian.ofBytes bytes.reverse)
    (fun n => (BigEndian.toBytes width n).reverse)

def pair (first : Codec α) (second : Codec β) : Codec (α × β) where
  encode p := first.encode p.1 ++ second.encode p.2
  decode bytes :=
    (first.decode bytes).bind fun (a, bytes) =>
      (second.decode bytes).map fun (b, bytes) => ((a, b), bytes)

def decodeMany (codec : Codec α) : Nat → List UInt8 → Option (List α × List UInt8)
  | 0, bytes => some ([], bytes)
  | count + 1, bytes =>
    (codec.decode bytes).bind fun (a, bytes) =>
      (codec.decodeMany count bytes).map fun (rest, bytes) => (a :: rest, bytes)

/-- A list after the number of its elements. -/
def list (width : Nat) (codec : Codec α) : Codec (List α) where
  encode values := (unsigned width).encode values.length ++ values.flatMap codec.encode
  decode bytes :=
    ((unsigned width).decode bytes).bind fun (count, bytes) => codec.decodeMany count bytes

/-- The fields of one constructor of a type. -/
def variant (codec : Codec α) (make : α → β) (fields : β → Option α) : Codec β where
  encode b := match fields b with
    | some a => codec.encode a
    | none => []
  decode bytes := (codec.decode bytes).map fun (a, rest) => (make a, rest)

/-- A type with several constructors: the number of the constructor and its fields. -/
def tagged (width : Nat) (tag : α → Nat) (variants : List (Codec α)) : Codec α where
  encode a := (unsigned width).encode (tag a) ++ match variants[tag a]? with
    | some codec => codec.encode a
    | none => []
  decode bytes :=
    ((unsigned width).decode bytes).bind fun (n, bytes) =>
      variants[n]?.bind fun codec => codec.decode bytes

def option (width : Nat) (codec : Codec α) : Codec (Option α) :=
  tagged width (fun value => if value.isSome then 1 else 0)
    [unit.variant (fun _ => none) (fun _ => some ()), codec.variant some id]

/-! ## Reading what was written -/

theorem inverts_unit : unit.Inverts () := fun _ => rfl

theorem inverts_fixed {width : Nat} {bytes : List UInt8} (h : bytes.length = width) :
    (fixed width).Inverts bytes := by
  intro rest
  subst h
  have hle : bytes.length ≤ (bytes ++ rest).length := by
    rw [List.length_append]
    exact Nat.le_add_right _ _
  show (if bytes.length ≤ (bytes ++ rest).length then
    some ((bytes ++ rest).take bytes.length, (bytes ++ rest).drop bytes.length) else none) = _
  rw [if_pos hle, List.take_left, List.drop_left]

theorem Inverts.map {codec : Codec α} {make : α → β} {parts : β → α} {b : β}
    (h : codec.Inverts (parts b)) (hmake : make (parts b) = b) :
    (codec.map make parts).Inverts b := by
  intro rest
  show (codec.decode (codec.encode (parts b) ++ rest)).map _ = _
  rw [h rest]
  exact congrArg (fun b => some (b, rest)) hmake

theorem inverts_unsigned {width n : Nat} (h : n < 256 ^ width) : (unsigned width).Inverts n := by
  refine (inverts_fixed ?_).map ?_
  · rw [List.length_reverse, BigEndian.length_toBytes]
  · rw [List.reverse_reverse, BigEndian.ofBytes_toBytes h]

theorem Inverts.pair {first : Codec α} {second : Codec β} {a : α} {b : β}
    (hfirst : first.Inverts a) (hsecond : second.Inverts b) :
    (first.pair second).Inverts (a, b) := by
  intro rest
  show ((first.decode (first.encode a ++ second.encode b ++ rest)).bind _) = _
  rw [List.append_assoc, hfirst]
  show ((second.decode (second.encode b ++ rest)).map _) = _
  rw [hsecond]
  rfl

theorem decodeMany_flatMap {codec : Codec α} {values : List α}
    (h : ∀ a ∈ values, codec.Inverts a) (rest : List UInt8) :
    codec.decodeMany values.length (values.flatMap codec.encode ++ rest) = some (values, rest) := by
  induction values with
  | nil => rfl
  | cons a values ih =>
    have hrest := ih fun b hb => h b (List.mem_cons_of_mem a hb)
    show ((codec.decode (((a :: values).flatMap codec.encode) ++ rest)).bind _) = _
    rw [List.flatMap_cons, List.append_assoc, h a List.mem_cons_self]
    show ((codec.decodeMany values.length (values.flatMap codec.encode ++ rest)).map _) = _
    rw [hrest]
    rfl

theorem inverts_list {width : Nat} {codec : Codec α} {values : List α}
    (hlength : values.length < 256 ^ width) (h : ∀ a ∈ values, codec.Inverts a) :
    (list width codec).Inverts values := by
  intro rest
  show (((unsigned width).decode
    ((unsigned width).encode values.length ++ values.flatMap codec.encode ++ rest)).bind _) = _
  rw [List.append_assoc, inverts_unsigned hlength]
  exact decodeMany_flatMap h rest

theorem Inverts.variant {codec : Codec α} {make : α → β} {fields : β → Option α} {a : α} {b : β}
    (h : codec.Inverts a) (hfields : fields b = some a) (hmake : make a = b) :
    (codec.variant make fields).Inverts b := by
  intro rest
  have hencode : (codec.variant make fields).encode b = codec.encode a := by
    show (match fields b with | some a => codec.encode a | none => []) = _
    rw [hfields]
  rw [hencode]
  show (codec.decode (codec.encode a ++ rest)).map _ = _
  rw [h rest]
  exact congrArg (fun b => some (b, rest)) hmake

theorem Inverts.tagged {width : Nat} {tag : α → Nat} {variants : List (Codec α)}
    {codec : Codec α} {a : α} (n : Nat) (h : codec.Inverts a) (htag : tag a = n)
    (hn : n < 256 ^ width) (hvariant : variants[n]? = some codec) :
    (tagged width tag variants).Inverts a := by
  intro rest
  subst htag
  have hencode : (Codec.tagged width tag variants).encode a =
      (unsigned width).encode (tag a) ++ codec.encode a := by
    show _ ++ (match variants[tag a]? with | some codec => codec.encode a | none => []) = _
    rw [hvariant]
  rw [hencode, List.append_assoc]
  show (((unsigned width).decode _).bind _) = _
  rw [inverts_unsigned hn]
  show (variants[tag a]?.bind _) = _
  rw [hvariant]
  exact h rest

theorem inverts_none {width : Nat} {codec : Codec α} : (option width codec).Inverts none :=
  Inverts.tagged 0 (inverts_unit.variant rfl rfl) rfl (Nat.pow_pos (by decide)) rfl

theorem Inverts.some {width : Nat} {codec : Codec α} {a : α} (h : codec.Inverts a)
    (hwidth : 0 < width) : (option width codec).Inverts (some a) :=
  Inverts.tagged 1 (h.variant rfl rfl) rfl (Nat.one_lt_pow (by omega) (by decide)) rfl

/-! ## Reading what was cut off -/

/-- What is read stays the same when more bytes follow. -/
def Extends (codec : Codec α) : Prop :=
  ∀ bytes a rest tail, codec.decode bytes = some (a, rest) →
    codec.decode (bytes ++ tail) = some (a, rest ++ tail)

theorem extends_unit : unit.Extends := by
  intro bytes a rest tail h
  exact congrArg (fun bytes => some ((), bytes ++ tail)) (congrArg Prod.snd (Option.some.inj h))

theorem extends_fixed (width : Nat) : (fixed width).Extends := by
  intro bytes a rest tail h
  change (if width ≤ bytes.length then some (bytes.take width, bytes.drop width) else none) =
    some (a, rest) at h
  split_ifs at h with hle
  obtain ⟨rfl, rfl⟩ := Prod.mk.inj (Option.some.inj h)
  have hlonger : width ≤ (bytes ++ tail).length := by
    rw [List.length_append]
    exact Nat.le_trans hle (Nat.le_add_right _ _)
  show (if width ≤ (bytes ++ tail).length then
    some ((bytes ++ tail).take width, (bytes ++ tail).drop width) else none) = _
  rw [if_pos hlonger, List.take_append_of_le_length hle, List.drop_append_of_le_length hle]

/-- What is made of a value that was read, by `map` and by `variant`. -/
theorem exists_of_made {result : Option (α × List UInt8)} {make : α → β} {rest : List UInt8} {b : β}
    (h : result.map (fun (a, rest) => (make a, rest)) = some (b, rest)) :
    ∃ a, result = some (a, rest) ∧ make a = b := by
  obtain ⟨⟨a, rest'⟩, hread, heq⟩ := Option.map_eq_some_iff.mp h
  obtain ⟨rfl, rfl⟩ := Prod.mk.inj heq
  exact ⟨a, hread, rfl⟩

theorem Extends.map {codec : Codec α} (h : codec.Extends) (make : α → β) (parts : β → α) :
    (codec.map make parts).Extends := by
  intro bytes b rest tail hdecode
  obtain ⟨a, ha, rfl⟩ := exists_of_made hdecode
  show (codec.decode (bytes ++ tail)).map _ = _
  rw [h bytes a rest tail ha]
  rfl

theorem extends_unsigned (width : Nat) : (unsigned width).Extends :=
  (extends_fixed width).map _ _

theorem Extends.pair {first : Codec α} {second : Codec β} (hfirst : first.Extends)
    (hsecond : second.Extends) : (first.pair second).Extends := by
  rintro bytes ⟨a, b⟩ rest tail h
  obtain ⟨⟨a', middle⟩, ha, hbind⟩ := Option.bind_eq_some_iff.mp h
  obtain ⟨⟨b', rest'⟩, hb, heq⟩ := Option.map_eq_some_iff.mp hbind
  obtain ⟨hpair, rfl⟩ := Prod.mk.inj heq
  obtain ⟨rfl, rfl⟩ := Prod.mk.inj hpair
  show ((first.decode (bytes ++ tail)).bind _) = _
  rw [hfirst bytes a' middle tail ha]
  show ((second.decode (middle ++ tail)).map _) = _
  rw [hsecond middle b' rest' tail hb]
  rfl

theorem Extends.decodeMany {codec : Codec α} (h : codec.Extends) {count : Nat}
    {bytes rest tail : List UInt8} {values : List α}
    (hdecode : codec.decodeMany count bytes = some (values, rest)) :
    codec.decodeMany count (bytes ++ tail) = some (values, rest ++ tail) := by
  induction count generalizing bytes values with
  | zero =>
    obtain ⟨rfl, rfl⟩ := Prod.mk.inj (Option.some.inj hdecode)
    rfl
  | succ count ih =>
    obtain ⟨⟨a, middle⟩, ha, hbind⟩ := Option.bind_eq_some_iff.mp hdecode
    obtain ⟨⟨others, rest'⟩, hothers, heq⟩ := Option.map_eq_some_iff.mp hbind
    obtain ⟨rfl, rfl⟩ := Prod.mk.inj heq
    show ((codec.decode (bytes ++ tail)).bind _) = _
    rw [h bytes a middle tail ha]
    show ((codec.decodeMany count (middle ++ tail)).map _) = _
    rw [ih hothers]
    rfl

theorem Extends.list {codec : Codec α} (h : codec.Extends) (width : Nat) :
    (list width codec).Extends := by
  intro bytes values rest tail hdecode
  obtain ⟨⟨count, middle⟩, hcount, hmany⟩ := Option.bind_eq_some_iff.mp hdecode
  show (((unsigned width).decode (bytes ++ tail)).bind _) = _
  rw [extends_unsigned width bytes count middle tail hcount]
  exact h.decodeMany hmany

theorem Extends.variant {codec : Codec α} (h : codec.Extends) (make : α → β)
    (fields : β → Option α) : (codec.variant make fields).Extends := by
  intro bytes b rest tail hdecode
  obtain ⟨a, ha, rfl⟩ := exists_of_made hdecode
  show (codec.decode (bytes ++ tail)).map _ = _
  rw [h bytes a rest tail ha]
  rfl

theorem Extends.tagged {variants : List (Codec α)} (h : ∀ codec ∈ variants, codec.Extends)
    (width : Nat) (tag : α → Nat) : (tagged width tag variants).Extends := by
  intro bytes a rest tail hdecode
  obtain ⟨⟨n, middle⟩, hn, hbind⟩ := Option.bind_eq_some_iff.mp hdecode
  obtain ⟨codec, hcodec, ha⟩ := Option.bind_eq_some_iff.mp hbind
  show (((unsigned width).decode (bytes ++ tail)).bind _) = _
  rw [extends_unsigned width bytes n middle tail hn]
  show (variants[n]?.bind _) = _
  rw [hcodec]
  exact h codec (List.mem_of_getElem? hcodec) middle a rest tail ha

theorem Extends.option {codec : Codec α} (h : codec.Extends) (width : Nat) :
    (option width codec).Extends := by
  refine Extends.tagged ?_ _ _
  rw [List.forall_mem_cons, List.forall_mem_singleton]
  exact ⟨extends_unit.variant _ _, h.variant _ _⟩

/-- Of an encoding that is cut off nothing is read. -/
theorem Extends.decode_cut {codec : Codec α} (h : codec.Extends) {a : α} (ha : codec.Inverts a)
    {cut : List UInt8} (hcut : cut <+: codec.encode a)
    (hlt : cut.length < (codec.encode a).length) : codec.decode cut = none := by
  cases hdecode : codec.decode cut with
  | none => rfl
  | some result =>
    obtain ⟨found, rest⟩ := result
    obtain ⟨tail, htail⟩ := hcut
    -- What is missing would be left over.
    have hread := h cut found rest tail hdecode
    have hwhole := ha []
    rw [htail] at hread
    rw [List.append_nil, hread] at hwhole
    have hnil : rest ++ tail = [] := congrArg Prod.snd (Option.some.inj hwhole)
    rw [← htail, (List.append_eq_nil_iff.mp hnil).2, List.append_nil] at hlt
    exact absurd hlt (Nat.lt_irrefl _)

/-! ## Lengths -/

@[simp] theorem length_encode_unsigned (width n : Nat) :
    ((unsigned width).encode n).length = width := by
  show (BigEndian.toBytes width n).reverse.length = width
  rw [List.length_reverse, BigEndian.length_toBytes]

theorem le_length_encode_tagged (width : Nat) (tag : α → Nat) (variants : List (Codec α)) (a : α) :
    width ≤ ((tagged width tag variants).encode a).length := by
  rw [tagged, List.length_append, length_encode_unsigned]
  exact Nat.le_add_right _ _

theorem length_encode_list {width size : Nat} {codec : Codec α} {values : List α}
    (h : ∀ a ∈ values, (codec.encode a).length = size) :
    ((list width codec).encode values).length = width + values.length * size := by
  have hvalues : (values.flatMap codec.encode).length = values.length * size := by
    rw [List.length_flatMap, List.map_congr_left h, List.map_const', List.sum_replicate_nat]
  show ((unsigned width).encode values.length ++ values.flatMap codec.encode).length = _
  rw [List.length_append, length_encode_unsigned, hvalues]

end Codec

end Lib
end Kademlia

import Kademlia.Network.Outgoing
import Kademlia.Network.RateLimit
import Kademlia.Protocol.Rpc

/-!
# The receive loop of the UDP transport

`handle_incoming` reads datagrams from anyone.  A response goes to the call that waits for it.
For a request the loop spawns a task that calls the handler, if the limit of its address
allows that, and anything else is dropped.  The calls that wait, the spawned tasks, and
whoever sets the handler run beside the loop, the tasks in any order.

Which tasks are spawned for an address depends on the requests of this address alone, and what
the waiting calls get depends on the responses alone, so neither garbage nor a flood of
requests from elsewhere is noticed.
-/

namespace Kademlia

open Lib

namespace UdpNetwork

/-- A request as it comes in. -/
structure Arrival where
  now : Instant
  src : SocketAddr
  message : RequestMessage

/-- What the loop shares with the rest of the transport, with handlers of any kind, and the
spawned tasks that have not run yet. -/
structure Incoming (η : Type) where
  transport : Transport.State
  requestHandler : Option η
  rateLimitTable : RateLimitTable
  tasks : List (η × Arrival)

namespace Incoming

inductive Event (η : Type) where
  | datagram (now : Instant) (src : SocketAddr) (data : List UInt8)
  | recvError
  | runTask (task : Nat)
  | setRequestHandler (handler : η)
  | send (id : MessageId)
  | wait (call : Nat) (st : Rpc.WaitStep)
  | drop (call : Nat)

variable {η : Type} (serializer : Serializer)

/-- A transport that nobody has called yet. -/
def new (requestHandler : Option η) : Incoming η :=
  { transport := Transport.start, requestHandler := requestHandler, rateLimitTable := ∅,
    tasks := [] }

/-- One turn of the loop for a datagram, with the task that it spawns. -/
def handleIncoming (s : Incoming η) (now : Instant) (src : SocketAddr) (data : List UInt8) :
    Incoming η × List (η × Arrival) :=
  match decode serializer data with
  | none => (s, [])
  | some (.response response) =>
    ({ s with transport := OpenTransport.step .udp s.transport (.incoming response) }, [])
  | some (.request request) =>
    let (isAllowed, rateLimitTable) := checkRateLimit s.rateLimitTable now src.ip
    let s := { s with rateLimitTable := rateLimitTable }
    if isAllowed then
      match s.requestHandler with
      | some handler => (s, [(handler, { now := now, src := src, message := request })])
      | none => (s, [])
    else (s, [])

def step (s : Incoming η) : Event η → Incoming η
  | .datagram now src data =>
    let turn := handleIncoming serializer s now src data
    { turn.1 with tasks := turn.1.tasks ++ turn.2 }
  | .recvError => s
  | .runTask task => { s with tasks := s.tasks.eraseIdx task }
  | .setRequestHandler handler => { s with requestHandler := some handler }
  | .send id => { s with transport := OpenTransport.step .udp s.transport (.event (.send id)) }
  | .wait call st =>
    { s with transport := OpenTransport.step .udp s.transport (.event (st.event call)) }
  | .drop call => { s with transport := OpenTransport.step .udp s.transport (.drop call) }

/-- The tasks that the loop spawns. -/
def spawns (s : Incoming η) : Event η → List (η × Arrival)
  | .datagram now src data => (handleIncoming serializer s now src data).2
  | _ => []

/-- The requests that reach a handler. -/
def handles (s : Incoming η) : Event η → List (η × Arrival)
  | .runTask task => s.tasks[task]?.toList
  | _ => []

def ofAddress (ip : IpAddr) (tasks : List (η × Arrival)) : List (η × Arrival) :=
  tasks.filter fun task => task.2.src.ip = ip

/-- The tasks spawned for an address in a run. -/
def spawned (ip : IpAddr) (s : Incoming η) (events : List (Event η)) : List (η × Arrival) :=
  ofAddress ip (outputs (step serializer) (spawns serializer) s events)

/-- What the handlers get from an address in a run. -/
def handled (ip : IpAddr) (s : Incoming η) (events : List (Event η)) : List (η × Arrival) :=
  ofAddress ip (outputs (step serializer) handles s events)

/-! ## What an event brings -/

def arrival : Event η → Option Arrival
  | .datagram now src data =>
    match decode serializer data with
    | some (.request message) => some { now := now, src := src, message := message }
    | _ => none
  | _ => none

/-- The requests of an address. -/
def arrivals (ip : IpAddr) (events : List (Event η)) : List Arrival :=
  (events.filterMap (arrival serializer)).filter fun a => a.src.ip = ip

/-- What an event is to the calls that wait. -/
def transportInput : Event η → Option OpenTransport.Input
  | .datagram _ _ data =>
    match decode serializer data with
    | some (.response response) => some (.incoming response)
    | _ => none
  | .send id => some (.event (.send id))
  | .wait call st => some (.event (st.event call))
  | .drop call => some (.drop call)
  | _ => none

/-- A request of the address, or a new handler. -/
def Concerns (ip : IpAddr) (event : Event η) : Bool :=
  match event with
  | .setRequestHandler _ => true
  | event => (arrival serializer event).any fun a => a.src.ip = ip

/-! ## Verdicts -/

/-- A request with the handler of that moment and whether the limit allows it. -/
structure Verdict (η : Type) where
  requestHandler : Option η
  arrival : Arrival
  isAllowed : Bool

def Verdict.task (verdict : Verdict η) : Option (η × Arrival) :=
  if verdict.isAllowed then verdict.requestHandler.map (·, verdict.arrival) else none

/-- The verdict on a request of the address. -/
def judge (ip : IpAddr) (s : Incoming η) (event : Event η) : List (Verdict η) :=
  match arrival serializer event with
  | some a =>
    if a.src.ip = ip then
      [{ requestHandler := s.requestHandler, arrival := a,
         isAllowed := (checkRateLimit s.rateLimitTable a.now a.src.ip).1 }]
    else []
  | none => []

def verdicts (ip : IpAddr) (s : Incoming η) (events : List (Event η)) : List (Verdict η) :=
  outputs (step serializer) (judge serializer ip) s events

theorem datagram_of_arrival {event : Event η} {a : Arrival} (h : arrival serializer event = some a) :
    ∃ data, event = .datagram a.now a.src data ∧
      decode serializer data = some (.request a.message) := by
  cases event with
  | datagram now src data =>
    cases hdecode : decode serializer data with
    | none =>
      simp only [arrival, hdecode] at h
      cases h
    | some message =>
      cases message with
      | request request =>
        simp only [arrival, hdecode, Option.some.injEq] at h
        subst h
        exact ⟨data, rfl, hdecode⟩
      | response response =>
        simp only [arrival, hdecode] at h
        cases h
  | _ => cases h

/-- What the loop does with a request. -/
theorem step_of_arrival {event : Event η} {a : Arrival} (s : Incoming η)
    (h : arrival serializer event = some a) :
    step serializer s event =
        { s with
          rateLimitTable := (checkRateLimit s.rateLimitTable a.now a.src.ip).2
          tasks := s.tasks ++ spawns serializer s event } ∧
      spawns serializer s event =
        if (checkRateLimit s.rateLimitTable a.now a.src.ip).1 then
          (s.requestHandler.map (·, a)).toList else [] := by
  obtain ⟨data, rfl, hdecode⟩ := datagram_of_arrival serializer h
  simp only [step, spawns, handleIncoming, hdecode]
  cases (checkRateLimit s.rateLimitTable a.now a.src.ip).1 with
  | false => exact ⟨rfl, rfl⟩
  | true =>
    cases s.requestHandler with
    | none => exact ⟨rfl, rfl⟩
    | some handler => exact ⟨rfl, rfl⟩

/-- What the loop does not do with anything else. -/
theorem step_of_no_arrival {event : Event η} (s : Incoming η)
    (h : arrival serializer event = none) :
    (step serializer s event).rateLimitTable = s.rateLimitTable ∧
      spawns serializer s event = [] := by
  cases event with
  | datagram now src data =>
    cases hdecode : decode serializer data with
    | none => simp only [step, spawns, handleIncoming, hdecode, and_self]
    | some message =>
      cases message with
      | request request =>
        simp only [arrival, hdecode] at h
        cases h
      | response response => simp only [step, spawns, handleIncoming, hdecode, and_self]
  | _ => exact ⟨rfl, rfl⟩

theorem snd_of_mem_spawns {isAllowed : Bool} {requestHandler : Option η} {a : Arrival}
    {h : η × Arrival} (hmem : h ∈ if isAllowed then (requestHandler.map (·, a)).toList else []) :
    h.2 = a := by
  split_ifs at hmem
  · cases requestHandler with
    | none => cases hmem
    | some handler => rw [List.mem_singleton.mp hmem]
  · cases hmem

/-- A task is spawned for the requests that are allowed. -/
theorem spawned_eq (ip : IpAddr) (s : Incoming η) (events : List (Event η)) :
    spawned serializer ip s events = (verdicts serializer ip s events).filterMap Verdict.task := by
  rw [spawned, ofAddress, ← List.filterMap_eq_filter, verdicts, filterMap_outputs,
    filterMap_outputs]
  congr 1
  funext s event
  unfold judge
  cases harrival : arrival serializer event with
  | none =>
    rw [(step_of_no_arrival serializer s harrival).2]
    rfl
  | some a =>
    rw [(step_of_arrival serializer s harrival).2]
    dsimp only
    by_cases hip : a.src.ip = ip
    · rw [if_pos hip, List.filterMap_cons, List.filterMap_nil, Verdict.task]
      dsimp only
      cases (checkRateLimit s.rateLimitTable a.now a.src.ip).1 with
      | false => rfl
      | true =>
        cases s.requestHandler with
        | none => rfl
        | some handler => simp [hip]
    · rw [if_neg hip, List.filterMap_nil, List.filterMap_eq_nil_iff]
      intro h hmem
      rw [Option.guard_eq_none_iff]
      simpa [snd_of_mem_spawns hmem] using hip

/-- The verdicts are about the requests of the address. -/
theorem map_arrival_verdicts (ip : IpAddr) (s : Incoming η) (events : List (Event η)) :
    (verdicts serializer ip s events).map Verdict.arrival = arrivals serializer ip events := by
  induction events generalizing s with
  | nil => rfl
  | cons event rest ih =>
    show (judge serializer ip s event ++ verdicts serializer ip _ rest).map Verdict.arrival = _
    rw [List.map_append, ih]
    unfold judge arrivals
    cases harrival : arrival serializer event with
    | none => rw [List.filterMap_cons_none harrival, List.map_nil, List.nil_append]
    | some a =>
      rw [List.filterMap_cons_some harrival]
      dsimp only
      by_cases hip : a.src.ip = ip
      · rw [if_pos hip, List.filter_cons, if_pos (decide_eq_true hip)]
        rfl
      · rw [if_neg hip, List.filter_cons, if_neg (by simpa using hip)]
        rfl

/-- A request is counted for its address. -/
theorem counterOf_arrival (t : RateLimitTable) (a : Arrival) :
    RateLimit.counterOf a.src.ip (checkRateLimit t a.now a.src.ip).2 =
        WindowCounter.step rateLimitWindow maxRequestsPerWindow
          (RateLimit.counterOf a.src.ip t) a.now ∧
      (checkRateLimit t a.now a.src.ip).1 =
        WindowCounter.admits rateLimitWindow maxRequestsPerWindow
          (RateLimit.counterOf a.src.ip t) a.now :=
  RateLimit.counterOf_step t { now := a.now, src := a.src }

theorem counterOf_arrival_ne (t : RateLimitTable) {a : Arrival} {ip : IpAddr}
    (h : a.src.ip ≠ ip) :
    RateLimit.counterOf ip (checkRateLimit t a.now a.src.ip).2 = RateLimit.counterOf ip t := by
  have hother : RateLimit.Request.ip { now := a.now, src := a.src } ≠ ip := h
  exact RateLimit.counterOf_step_ne hother t

/-- The verdicts are those of the counter of the address for the times of its requests. -/
theorem decisions_verdicts (ip : IpAddr) (s : Incoming η) (events : List (Event η)) :
    (verdicts serializer ip s events).map (fun v => (v.arrival.now, v.isAllowed)) =
      WindowCounter.decisions rateLimitWindow maxRequestsPerWindow
        (RateLimit.counterOf ip s.rateLimitTable) ((arrivals serializer ip events).map Arrival.now) := by
  induction events generalizing s with
  | nil => rfl
  | cons event rest ih =>
    show (judge serializer ip s event ++ verdicts serializer ip _ rest).map _ = _
    rw [List.map_append, ih]
    unfold judge arrivals
    cases harrival : arrival serializer event with
    | none =>
      rw [List.filterMap_cons_none harrival, (step_of_no_arrival serializer s harrival).1,
        List.map_nil, List.nil_append]
    | some a =>
      rw [List.filterMap_cons_some harrival, (step_of_arrival serializer s harrival).1]
      dsimp only
      by_cases hip : a.src.ip = ip
      · subst hip
        obtain ⟨hcounter, hadmits⟩ := counterOf_arrival s.rateLimitTable a
        rw [if_pos rfl, List.filter_cons, if_pos (decide_eq_true rfl), List.map_cons (f := Arrival.now),
          WindowCounter.decisions_cons, hcounter, hadmits]
        rfl
      · rw [if_neg hip, List.filter_cons, if_neg (by simpa using hip),
          counterOf_arrival_ne s.rateLimitTable hip]
        rfl

/-! ## What an address has to do with another -/

/-- What the requests of an address are judged by. -/
def part (ip : IpAddr) (s : Incoming η) : Option WindowCounter × Option η :=
  (RateLimit.counterOf ip s.rateLimitTable, s.requestHandler)

def partStep (p : Option WindowCounter × Option η) (event : Event η) :
    Option WindowCounter × Option η :=
  match event with
  | .setRequestHandler handler => (p.1, some handler)
  | event =>
    match arrival serializer event with
    | some a => (WindowCounter.step rateLimitWindow maxRequestsPerWindow p.1 a.now, p.2)
    | none => p

def partJudge (p : Option WindowCounter × Option η) (event : Event η) : List (Verdict η) :=
  match arrival serializer event with
  | some a =>
    [{ requestHandler := p.2, arrival := a,
       isAllowed := WindowCounter.admits rateLimitWindow maxRequestsPerWindow p.1 a.now }]
  | none => []

theorem requestHandler_step {event : Event η} (s : Incoming η)
    (h : ∀ handler, event ≠ .setRequestHandler handler) :
    (step serializer s event).requestHandler = s.requestHandler := by
  cases harrival : arrival serializer event with
  | some a => rw [(step_of_arrival serializer s harrival).1]
  | none =>
    cases event with
    | datagram now src data =>
      rw [step, handleIncoming]
      split
      · rfl
      · rfl
      · rename_i hdecode
        simp only [arrival, hdecode] at harrival
        cases harrival
    | setRequestHandler handler => exact absurd rfl (h handler)
    | _ => rfl

theorem verdicts_eq_part (ip : IpAddr) (s : Incoming η) (events : List (Event η)) :
    verdicts serializer ip s events =
      outputs (partStep serializer) (partJudge serializer) (part ip s)
        (events.filter (Concerns serializer ip)) := by
  refine outputs_filter (part ip) ?_ ?_ s events
  · intro s event hown
    cases harrival : arrival serializer event with
    | none =>
      cases event with
      | setRequestHandler handler => exact ⟨rfl, rfl⟩
      | _ => simp [Concerns, harrival] at hown
    | some a =>
      obtain ⟨data, rfl, -⟩ := datagram_of_arrival serializer harrival
      simp only [Concerns, harrival, Option.any_some, decide_eq_true_eq] at hown
      subst hown
      obtain ⟨hcounter, hadmits⟩ := counterOf_arrival s.rateLimitTable a
      simp only [part, partStep, partJudge, judge, harrival, if_true, hcounter, hadmits,
        (step_of_arrival serializer s harrival).1, and_self]
  · intro s event hother
    have hsame : (step serializer s event).requestHandler = s.requestHandler := by
      refine requestHandler_step serializer s ?_
      rintro handler rfl
      cases hother
    cases harrival : arrival serializer event with
    | none =>
      rw [part, hsame, (step_of_no_arrival serializer s harrival).1]
      exact ⟨rfl, by simp only [judge, harrival]⟩
    | some a =>
      obtain ⟨data, rfl, -⟩ := datagram_of_arrival serializer harrival
      simp only [Concerns, harrival, Option.any_some, decide_eq_false_iff_not] at hother
      rw [part, hsame, (step_of_arrival serializer s harrival).1,
        counterOf_arrival_ne s.rateLimitTable hother]
      exact ⟨rfl, by simp only [judge, harrival, if_neg hother]⟩

theorem verdicts_filter (ip : IpAddr) (s : Incoming η) (events : List (Event η)) :
    verdicts serializer ip s events =
      verdicts serializer ip s (events.filter (Concerns serializer ip)) := by
  rw [verdicts_eq_part, verdicts_eq_part, List.filter_filter]
  simp only [Bool.and_self]

/-- The waiting calls see the responses, and nothing else of what comes in. -/
theorem transport_run (s : Incoming η) (events : List (Event η)) :
    (run (step serializer) s events).transport =
      run (OpenTransport.step .udp) s.transport (events.filterMap (transportInput serializer)) := by
  refine run_filterMap Incoming.transport ?_ ?_ s events
  · intro s event input hinput
    cases event with
    | datagram now src data =>
      cases hdecode : decode serializer data with
      | none => simp [transportInput, hdecode] at hinput
      | some message =>
        cases message with
        | request request => simp [transportInput, hdecode] at hinput
        | response response =>
          simp only [transportInput, hdecode, Option.some.injEq] at hinput
          subst hinput
          simp only [step, handleIncoming, hdecode]
    | recvError => cases hinput
    | runTask task => cases hinput
    | setRequestHandler handler => cases hinput
    | _ =>
      rw [← Option.some.inj hinput]
      rfl
  · intro s event hnone
    cases event with
    | datagram now src data =>
      cases harrival : arrival serializer (.datagram now src data : Event η) with
      | some a => rw [(step_of_arrival serializer s harrival).1]
      | none =>
        rw [step, handleIncoming]
        split
        · rfl
        · rename_i response hdecode
          simp only [transportInput, hdecode] at hnone
          cases hnone
        · rename_i hdecode
          simp only [arrival, hdecode] at harrival
          cases harrival
    | recvError => rfl
    | runTask task => rfl
    | setRequestHandler handler => rfl
    | _ => cases hnone

theorem requestHandler_of_mem_verdicts {ip : IpAddr} {s : Incoming η} {events : List (Event η)}
    (hset : s.requestHandler.isSome) {v : Verdict η} (hv : v ∈ verdicts serializer ip s events) :
    v.requestHandler.isSome := by
  induction events generalizing s with
  | nil => cases hv
  | cons event rest ih =>
    rcases List.mem_append.mp hv with hfirst | hrest
    · unfold judge at hfirst
      split at hfirst
      · split_ifs at hfirst
        · rw [List.mem_singleton.mp hfirst]
          exact hset
        · cases hfirst
      · cases hfirst
    · refine ih ?_ hrest
      by_cases hnew : ∃ handler, event = .setRequestHandler handler
      · obtain ⟨handler, rfl⟩ := hnew
        rfl
      · rw [requestHandler_step serializer s fun handler heq => hnew ⟨handler, heq⟩]
        exact hset

/-- The tasks are left alone while a datagram is looked at. -/
theorem tasks_handleIncoming (s : Incoming η) (now : Instant) (src : SocketAddr)
    (data : List UInt8) : (handleIncoming serializer s now src data).1.tasks = s.tasks := by
  unfold handleIncoming
  split
  · rfl
  · rfl
  · dsimp only
    split_ifs
    · split <;> rfl
    · rfl

/-- The tasks may run in any order, and each of them runs at most once. -/
theorem handled_perm (ip : IpAddr) (s : Incoming η) (events : List (Event η)) :
    (handled serializer ip s events ++ ofAddress ip (run (step serializer) s events).tasks).Perm
      (ofAddress ip s.tasks ++ spawned serializer ip s events) := by
  have hbalance : ∀ (s : Incoming η) (event : Event η),
      (handles s event ++ (step serializer s event).tasks).Perm
        (s.tasks ++ spawns serializer s event) := by
    intro s event
    cases event with
    | datagram now src data =>
      show ((handleIncoming serializer s now src data).1.tasks ++
        (handleIncoming serializer s now src data).2).Perm _
      rw [tasks_handleIncoming]
      exact .refl _
    | runTask task =>
      show (s.tasks[task]?.toList ++ s.tasks.eraseIdx task).Perm (s.tasks ++ [])
      rw [List.append_nil]
      by_cases htask : task < s.tasks.length
      · rw [List.getElem?_eq_getElem htask]
        exact List.getElem_cons_eraseIdx_perm htask
      · rw [List.getElem?_eq_none (Nat.le_of_not_lt htask),
          List.eraseIdx_of_length_le (Nat.le_of_not_lt htask)]
        exact .refl _
    | _ =>
      show s.tasks.Perm (s.tasks ++ [])
      rw [List.append_nil]
  have hpool := (outputs_pool hbalance s events).filter fun task => task.2.src.ip = ip
  rw [List.filter_append, List.filter_append] at hpool
  exact hpool

section Limit

variable {requestHandler : Option η} {events : List (Event η)} {ip : IpAddr}
  (htimes : ((arrivals serializer ip events).map Arrival.now).Pairwise (· ≤ ·))

include htimes

theorem countP_spawned_le {lo hi : Nat} (hhi : hi ≤ lo + rateLimitWindow) :
    (spawned serializer ip (new requestHandler) events).countP
      (fun h => decide (lo ≤ h.2.now ∧ h.2.now ≤ hi)) ≤ 2 * maxRequestsPerWindow := by
  have hbound : (WindowCounter.decisions rateLimitWindow maxRequestsPerWindow none
      ((arrivals serializer ip events).map Arrival.now)).countP (WindowCounter.admittedIn lo hi) ≤
        2 * maxRequestsPerWindow := WindowCounter.countP_admittedIn_le htimes hhi
  refine le_trans ?_ hbound
  have hdecisions := decisions_verdicts serializer ip (new requestHandler) events
  rw [show RateLimit.counterOf ip (new requestHandler).rateLimitTable = none from rfl] at hdecisions
  rw [spawned_eq, List.countP_filterMap, ← hdecisions, List.countP_map]
  refine List.countP_mono_left ?_
  rintro ⟨handler, a, isAllowed⟩ _ hv
  cases isAllowed with
  | false => simp [Verdict.task] at hv
  | true =>
    cases handler with
    | none => simp [Verdict.task] at hv
    | some handler => simpa [Verdict.task, WindowCounter.admittedIn] using hv

theorem spawned_of_limit (hset : requestHandler.isSome)
    (hlimit : ∀ lo, ((arrivals serializer ip events).countP fun a =>
      decide (lo ≤ a.now ∧ a.now ≤ lo + rateLimitWindow)) ≤ maxRequestsPerWindow) :
    (spawned serializer ip (new requestHandler) events).map Prod.snd =
      arrivals serializer ip events := by
  have hall : ∀ d ∈ WindowCounter.decisions rateLimitWindow maxRequestsPerWindow none
      ((arrivals serializer ip events).map Arrival.now), d.2 = true := by
    refine WindowCounter.all_admitted htimes ?_
    intro lo
    rw [WindowCounter.eventsFrom, List.countP_map]
    exact hlimit lo
  have hdecisions := decisions_verdicts serializer ip (new requestHandler) events
  rw [show RateLimit.counterOf ip (new requestHandler).rateLimitTable = none from rfl] at hdecisions
  rw [spawned_eq, ← map_arrival_verdicts serializer ip (new requestHandler), List.map_filterMap,
    ← List.filterMap_eq_map]
  refine List.filterMap_congr ?_
  intro v hv
  have hallowed : v.isAllowed = true := by
    refine hall (v.arrival.now, v.isAllowed) ?_
    rw [← hdecisions]
    exact List.mem_map.mpr ⟨v, hv, rfl⟩
  obtain ⟨handler, hhandler⟩ :=
    Option.isSome_iff_exists.mp (requestHandler_of_mem_verdicts serializer hset hv)
  simp [Verdict.task, hallowed, hhandler]

end Limit

/-- The receive loop keeps addresses apart, and requests apart from responses.  For the requests
that come in from an address within the window it spawns at most twice the limit of tasks.  Once
the handler is set, it spawns one for every request of an address that keeps to the limit.  The
tasks for an address stay the same without the requests of others, the responses and whatever
is not a message.  Each spawned task calls the handler once, in whatever order they run, and the
waiting calls see the responses only. -/
theorem incoming_isolated (requestHandler : Option η) (events : List (Event η))
    (hclock : ((events.filterMap (arrival serializer)).map Arrival.now).Pairwise (· ≤ ·))
    (ip : IpAddr) :
    let s : Incoming η := new requestHandler
    (∀ lo hi, hi ≤ lo + rateLimitWindow →
      (spawned serializer ip s events).countP (fun h => decide (lo ≤ h.2.now ∧ h.2.now ≤ hi)) ≤
        2 * maxRequestsPerWindow) ∧
    (requestHandler.isSome →
      (∀ lo, ((arrivals serializer ip events).countP fun a =>
        decide (lo ≤ a.now ∧ a.now ≤ lo + rateLimitWindow)) ≤ maxRequestsPerWindow) →
      (spawned serializer ip s events).map Prod.snd = arrivals serializer ip events) ∧
    spawned serializer ip s events =
      spawned serializer ip s (events.filter (Concerns serializer ip)) ∧
    (handled serializer ip s events ++ ofAddress ip (run (step serializer) s events).tasks).Perm
      (spawned serializer ip s events) ∧
    (run (step serializer) s events).transport = run (OpenTransport.step .udp) Transport.start
      (events.filterMap (transportInput serializer)) := by
  intro s
  have htimes : ((arrivals serializer ip events).map Arrival.now).Pairwise (· ≤ ·) :=
    hclock.sublist (List.filter_sublist.map _)
  refine ⟨?_, ?_, ?_, handled_perm serializer ip s events, transport_run serializer s events⟩
  · intro lo hi hhi
    exact countP_spawned_le serializer htimes hhi
  · intro hset hlimit
    exact spawned_of_limit serializer htimes hset hlimit
  · rw [spawned_eq, spawned_eq, ← verdicts_filter]

/-- A ping of the first node of two comes in between garbage and a pong, and its task runs. -/
def mixedTraffic : List (Event Unit) :=
  [.datagram 1 (.v4 1#32 8000) [1, 2, 3],
    .datagram 2 (.v4 1#32 8000)
      (Bincode.kademliaMessage.encode (.request (.ping 7 (Node.ofByte 1)))),
    .datagram 3 (.v4 2#32 8000)
      (Bincode.kademliaMessage.encode (.response (.pong 9 (Node.ofByte 2)))),
    .runTask 0]

theorem incoming_isolated_mixedTraffic :
    (arrivals Bincode.serializer (.v4 1#32) mixedTraffic).length = 1 ∧
      (spawned Bincode.serializer (.v4 1#32) (new (some ())) mixedTraffic).map Prod.snd =
        arrivals Bincode.serializer (.v4 1#32) mixedTraffic ∧
      (handled Bincode.serializer (.v4 1#32) (new (some ())) mixedTraffic).length = 1 := by
  have hclock : ((mixedTraffic.filterMap (arrival Bincode.serializer)).map
      Arrival.now).Pairwise (· ≤ ·) := by decide +kernel
  have hisolated :=
    incoming_isolated Bincode.serializer (some ()) mixedTraffic hclock (.v4 1#32)
  refine ⟨by decide +kernel, hisolated.2.1 rfl ?_, by decide +kernel⟩
  intro lo
  refine le_trans List.countP_le_length ?_
  decide +kernel

end Incoming

end UdpNetwork

end Kademlia

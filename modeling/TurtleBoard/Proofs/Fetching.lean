import TurtleBoard.Proofs.Exchange
import TurtleBoard.Proofs.Patience
import TurtleBoard.Proofs.Pulls

/-! Every tick ends, with few requests. A script is pulled no more often than it has actions, and once more. What an
artist's actor has buffered is handed out before the queue is asked for, and a queue that was asked for is empty: so a
tick asks twice at the most, and it only waits when the buffer and the queue are both empty. -/
namespace TurtleBoard

structure Logged (ω : Type) where
  link : ω
  sent : List Request := []

namespace Logged
variable {ω : Type} [Link ω]

instance : Link (Logged ω) where
  send r logged := ((Link.send r logged.link).1, ⟨(Link.send r logged.link).2, logged.sent ++ [r]⟩)
  stock logged := Link.stock logged.link

def forget (supply : Moves × Logged ω) : Moves × ω := (supply.1, supply.2.link)

theorem getLogged {β : Type} (url what : String) (read : Json → Option β) (link : ω) (sent : List Request) :
    Client.get url what read (Logged.mk link sent) =
      ((Client.get url what read link).1,
        Logged.mk (Client.get url what read link).2 (sent ++ Replies.asking url)) := by
  cases parsed : Url.parse? url with
  | none => simp only [Client.get, Client.request, parsed, Replies.asking, List.append_nil]
  | some address =>
    simp only [Client.get, Client.request, parsed, Replies.asking, Link.send]
    rcases Link.send (⟨"GET", address.host, address.target, .empty⟩ : Request) link with ⟨answer, after⟩
    cases answer.filter fun response => response.status < 400 || 600 ≤ response.status with
    | none => rfl
    | some response =>
      simp only
      cases (Json.ofBytes? response.body).bind (Json.list? read) <;> rfl

theorem refillLogged (r : RemoteMoves) (link : ω) (sent : List Request) :
    r.refill (Logged.mk link sent) =
      ((r.refill link).1, Logged.mk (r.refill link).2 (sent ++ Replies.asking (r.client.movesUrl r.artistId))) := by
  simp only [RemoteMoves.refill, Client.drainMoves, getLogged]
  rcases Client.get (r.client.movesUrl r.artistId) "moves" Move.ofJson? link with ⟨_ | moves, after⟩ <;> rfl

theorem pullForget (supply : Moves × Logged ω) :
    Supply.pull (forget supply) = ((Supply.pull supply).1, forget (Supply.pull supply).2) := by
  obtain ⟨moves, link, sent⟩ := supply
  cases moves with
  | script sequence => rfl
  | remote r =>
    obtain ⟨client, id, pending⟩ := r
    change (Moves.remote ⟨client, id, pending⟩).pull link =
      (((Moves.remote ⟨client, id, pending⟩).pull (Logged.mk link sent)).1,
        forget ((Moves.remote ⟨client, id, pending⟩).pull (Logged.mk link sent)).2)
    cases pending with
    | cons first rest => rfl
    | nil =>
      rw [Moves.pullEmpty, Moves.pullEmpty, refillLogged]
      rcases (RemoteMoves.mk client id []).refill link with ⟨⟨client, id, _ | ⟨first, rest⟩⟩, after⟩ <;> rfl

end Logged

namespace Stepper
variable {rules : Rules Float} {now : Duration}

theorem scriptLoop {ω : Type} [Link ω] (rules : Rules Float) (now : Duration) (sequence : Sequence Float) (link : ω)
    (s : Stepper Float) : ∃ pulls next, pulls ≤ sequence.left.length + 1 ∧
      Loop rules now (Moves.script sequence, link) s pulls next := by
  have pull (sequence : Sequence Float) : Supply.pull (Moves.script sequence, link) =
      (sequence.pull.1, Moves.script sequence.pull.2, link) := rfl
  induction own : sequence.left generalizing sequence s with
  | nil =>
    have done := pull sequence
    rw [Sequence.pullEnded own] at done
    exact ⟨1, _, Nat.le_refl _, .ends done⟩
  | cons action rest ih =>
    obtain ⟨answer, next⟩ := Sequence.pullNext own
    have ready := pull sequence
    rw [answer] at ready
    cases starts : Transition.ofCommand? rules now s.pose action.command with
    | some t => exact ⟨1, _, Nat.le_add_left 1 _, .begins ready starts⟩
    | none =>
      obtain ⟨pulls, later, few, loop⟩ := ih _ { s with pen := s.pen.after action.command } next
      exact ⟨pulls + 1, _, Nat.succ_le_succ few, .notes ready starts loop⟩

end Stepper

structure Desk where
  client : Client
  host : String
  id : String
  reachable : Bool

namespace Desk
variable {rules : Rules Float} {now : Duration} {d : Desk} {target : String}

def supply (d : Desk) (buffer : List (Action Float)) (s : Store) (sent : List Request) : Moves × Logged Network :=
  (.remote ⟨d.client, d.id, buffer⟩, ⟨.serving d.host d.reachable s, sent⟩)

def Fetches (rules : Rules Float) (now : Duration) (d : Desk) (target : String) (buffer : List (Action Float))
    (s : Store) (sent : List Request) (stepper : Stepper Float) (pulls requests : Nat) : Prop :=
  ∃ made asked left after next, made ≤ pulls ∧ asked ≤ requests ∧
    Stepper.Loop rules now (d.supply buffer s sent) stepper made next ∧
    next.supply = d.supply left after (sent ++ List.replicate asked ⟨"GET", d.host, target, .empty⟩) ∧
    ∀ delay, next.wake = some (.after delay) → left = [] ∧ (d.reachable = true → after.pending d.id = [])

theorem buffered {s : Store} {sent : List Request} {pulls requests : Nat}
    (empty : ∀ stepper, d.Fetches rules now target [] s sent stepper pulls requests) (buffer : List (Action Float))
    (stepper : Stepper Float) :
    d.Fetches rules now target buffer s sent stepper (buffer.length + pulls) requests := by
  induction buffer generalizing stepper with
  | nil => simpa only [List.length_nil, Nat.zero_add] using empty stepper
  | cons first rest ih =>
    have pull : Supply.pull (d.supply (first :: rest) s sent) = (.ready first, d.supply rest s sent) := rfl
    cases starts : Transition.ofCommand? rules now stepper.pose first.command with
    | some t =>
      refine ⟨1, 0, rest, s, _, ?_, Nat.zero_le _, .begins pull starts, ?_, nofun⟩
      · rw [List.length_cons]
        omega
      · rw [List.replicate_zero, List.append_nil]
    | none =>
      obtain ⟨made, asked, left, after, next, few, seldom, loop, supply, waits⟩ :=
        ih { stepper with pen := stepper.pen.after first.command }
      refine ⟨made + 1, asked, left, after, _, ?_, seldom, .notes pull starts loop, supply, waits⟩
      rw [List.length_cons]
      omega

theorem askingQueue (queues : d.client.Queues d.host d.id target) :
    Replies.asking (d.client.movesUrl d.id) = [⟨"GET", d.host, target, .empty⟩] := by
  simp only [Replies.asking, queues.parsed]

theorem pullSupply (buffer : List (Action Float)) (s : Store) (sent : List Request) :
    Supply.pull (d.supply buffer s sent) = (Moves.remote ⟨d.client, d.id, buffer⟩).pull
      (Logged.mk (Network.serving d.host d.reachable s) sent) := rfl

theorem pullQueue (queues : d.client.Queues d.host d.id target) (reachable : d.reachable = true) (s : Store)
    (sent : List Request) :
    Supply.pull (d.supply [] s sent) =
      match s.actions d.id with
      | [] => (.waiting, d.supply [] (s.drain d.id).2 (sent ++ [⟨"GET", d.host, target, .empty⟩]))
      | first :: rest =>
          (.ready first, d.supply rest (s.drain d.id).2 (sent ++ [⟨"GET", d.host, target, .empty⟩])) := by
  rw [pullSupply, Moves.pullEmpty, Logged.refillLogged, reachable, RemoteMoves.refillQueue queues, askingQueue queues]
  simp only [List.nil_append, supply, reachable]
  cases s.actions d.id <;> rfl

theorem pullSilence (queues : d.client.Queues d.host d.id target) (silent : d.reachable = false) (s : Store)
    (sent : List Request) :
    Supply.pull (d.supply [] s sent) = (.waiting, d.supply [] s (sent ++ [⟨"GET", d.host, target, .empty⟩])) := by
  rw [pullSupply, Moves.pullEmpty, Logged.refillLogged, silent, RemoteMoves.refillDown, askingQueue queues]
  simp only [supply, silent]

theorem dry (queues : d.client.Queues d.host d.id target) {s : Store}
    (nothing : d.reachable = true → s.actions d.id = []) (sent : List Request) (stepper : Stepper Float) :
    d.Fetches rules now target [] s sent stepper 1 1 := by
  cases reachable : d.reachable with
  | false =>
    refine ⟨1, 1, [], s, _, Nat.le_refl _, Nat.le_refl _, .waits (pullSilence queues reachable s sent), rfl, ?_⟩
    intro _ _
    exact ⟨rfl, fun up => Bool.noConfusion (reachable.symm.trans up)⟩
  | true =>
    have pull := pullQueue queues reachable s sent
    rw [nothing reachable] at pull
    refine ⟨1, 1, [], (s.drain d.id).2, _, Nat.le_refl _, Nat.le_refl _, .waits pull, rfl, ?_⟩
    intro _ _
    exact ⟨rfl, fun _ => by rw [Store.pendingDrain, if_pos rfl]⟩

def queued (d : Desk) (s : Store) : Nat := if d.reachable then (s.actions d.id).length else 0

/- A queue that was asked for is empty, so the second request is the last one. -/
theorem fetched (queues : d.client.Queues d.host d.id target) (s : Store) (sent : List Request)
    (stepper : Stepper Float) : d.Fetches rules now target [] s sent stepper (d.queued s + 1) 2 := by
  by_cases more : d.reachable = true ∧ s.actions d.id ≠ []
  · obtain ⟨reachable, waiting⟩ := more
    have pull := pullQueue queues reachable s sent
    obtain ⟨first, rest, all⟩ := List.exists_cons_of_ne_nil waiting
    rw [all] at pull
    rw [queued, reachable, if_pos rfl, all, List.length_cons]
    cases starts : Transition.ofCommand? rules now stepper.pose first.command with
    | some t =>
      exact ⟨1, 1, rest, (s.drain d.id).2, _, Nat.le_add_left 1 _, Nat.le_succ 1, .begins pull starts, rfl, nofun⟩
    | none =>
      have drained : (s.drain d.id).2.actions d.id = [] := by
        rw [Store.actions, Store.pendingDrain, if_pos rfl]
        rfl
      obtain ⟨made, asked, left, after, next, few, seldom, loop, supply, waits⟩ :=
        buffered (dry queues (fun _ => drained) (sent ++ [⟨"GET", d.host, target, .empty⟩])) rest
          { stepper with pen := stepper.pen.after first.command }
      refine ⟨made + 1, asked + 1, left, after, _, Nat.succ_le_succ few, Nat.succ_le_succ seldom,
        .notes pull starts loop, ?_, waits⟩
      rw [List.replicate_succ, List.append_cons]
      exact supply
  · have nothing : d.reachable = true → s.actions d.id = [] := by
      intro reachable
      by_contra waiting
      exact more ⟨reachable, waiting⟩
    obtain ⟨made, asked, left, after, next, few, seldom, rest⟩ := dry queues nothing sent stepper
    exact ⟨made, asked, left, after, next, Nat.le_trans few (Nat.le_add_left 1 _), Nat.le_succ_of_le seldom, rest⟩

end Desk

theorem Store.pendingWithin (s : Store) (id : String) : (s.pending id).length ≤ s.pendingCount := by
  rw [pending, pendingCount]
  cases found : s.queues.find? (·.1 == id) with
  | none => exact Nat.zero_le _
  | some queue =>
    obtain ⟨before, later, split⟩ := List.append_of_mem (List.mem_of_find?_eq_some found)
    rw [split, List.flatMap_append, List.flatMap_cons, List.length_append, List.length_append]
    simp only [Option.map_some, Option.getD_some]
    omega

theorem Desk.queuedWithin (d : Desk) (buffer : List (Action Float)) (s : Store) (sent : List Request) :
    buffer.length + (d.queued s + 1) ≤ Supply.bound (d.supply buffer s sent) + 1 := by
  have actions : (s.actions d.id).length ≤ (s.pending d.id).length := List.length_filterMap_le _ _
  have pending := s.pendingWithin d.id
  cases reachable : d.reachable with
  | true =>
    have bound : Supply.bound (d.supply buffer s sent) = buffer.length + s.pendingCount := by
      rw [supply, reachable]
      rfl
    rw [bound, queued, reachable, if_pos rfl]
    omega
  | false =>
    rw [queued, reachable, if_neg Bool.false_ne_true]
    exact Nat.succ_le_succ (Nat.le_add_right _ _)

/- One tick: of an actor that plays a script, whatever carries requests, and of an artist's actor whose client finds the
queue of the artist, with the service within reach or not. The requests are those that a log of the link has; without
the log, the tick is the same. -/
theorem Stepper.ticksEndSoon {client : Client} {host id target : String} (queues : client.Queues host id target)
    (rules : Rules Float) (now : Duration) (pace : Pace) (s : Stepper Float) :
    (∀ (ω : Type) [Link ω] (sequence : Sequence Float) (link : ω),
      let tick := s.tick rules now pace (Moves.script sequence, link)
      ∃ pulls, pulls ≤ sequence.left.length + 1 ∧ s.Ticks rules now pace (Moves.script sequence, link) pulls tick) ∧
    ∀ (reachable : Bool) (buffer : List (Action Float)) (store : Store),
      let d : Desk := ⟨client, host, id, reachable⟩
      let tick := s.tick rules now pace (d.supply buffer store [])
      tick.mapSupply Logged.forget =
        s.tick rules now pace (Moves.remote ⟨client, id, buffer⟩, Network.serving host reachable store) ∧
      ∃ pulls requests left after, s.Ticks rules now pace (d.supply buffer store []) pulls tick ∧
        pulls ≤ buffer.length + (store.actions id).length + 1 ∧
        (store.actions id).length ≤ (store.pending id).length ∧ requests ≤ 2 ∧
        tick.supply = d.supply left after (List.replicate requests ⟨"GET", host, target, .empty⟩) ∧
        (reachable = true → ∀ delay, tick.wake = .after delay → left = [] ∧ after.pending id = []) := by
  constructor
  · intro ω _ sequence link tick
    obtain ⟨pulls, next, few, loop⟩ := scriptLoop rules now sequence link s.landed
    have enough : pulls ≤ sequence.size + 1 := sequence.leftSize ▸ few
    obtain ⟨made, less, ticks, _⟩ := tickMade loop enough pace
    exact ⟨made, Nat.le_trans less few, ticks⟩
  · intro reachable buffer store d tick
    refine ⟨(tickMap Logged.pullForget (fun _ => rfl) rules now pace (d.supply buffer store []) s).symm, ?_⟩
    obtain ⟨most, asked, left, after, next, few, seldom, loop, supply, waits⟩ :=
      Desk.buffered (Desk.fetched (d := d) queues store []) buffer s.landed
    have enough := Nat.le_trans few (d.queuedWithin buffer store [])
    obtain ⟨made, less, ticks, same⟩ := tickMade loop enough pace
    have within : made ≤ buffer.length + (store.actions id).length + 1 := by
      have queued : d.queued store ≤ (store.actions id).length := by
        rw [Desk.queued]
        split
        · exact Nat.le_refl _
        · exact Nat.zero_le _
      omega
    rcases same with same | ⟨same, never⟩
    · refine ⟨made, asked, left, after, ticks, within, List.length_filterMap_le _ _, seldom, ?_, ?_⟩
      · simp only [tick, same]
        exact supply
      · intro up delay wait
        simp only [tick, same, concluded] at wait
        cases asks : next.wake with
        | none =>
          rw [asks] at wait
          cases wait
        | some wake =>
          rw [asks, Option.getD_some] at wait
          obtain ⟨empty, drained⟩ := waits delay (asks.trans (congrArg some wait))
          exact ⟨empty, drained up⟩
    · exact ⟨made, 0, buffer, store, ticks, within, List.length_filterMap_le _ _, Nat.zero_le _, same,
        fun _ delay wait => absurd wait (never delay)⟩

theorem Stepper.ticksEndSoonAtLocalhost :
    let client := Client.ofBase ("http://" ++ "localhost:8080")
    let target := "/api/artists/artist1/moves"
    client.Queues "localhost:8080" "artist1" target ∧
      let d : Desk := ⟨client, "localhost:8080", "artist1", true⟩
      let store := (({} : Store).create "Ann").2
      let rules := (Board.ofConfig {} []).rules
      let tick := initial.tick rules .zero {} (d.supply [] store [])
      ∃ pulls requests left after, initial.Ticks rules .zero {} (d.supply [] store []) pulls tick ∧
        pulls ≤ 0 + (store.actions "artist1").length + 1 ∧
        (store.actions "artist1").length ≤ (store.pending "artist1").length ∧ requests ≤ 2 ∧
        tick.supply = d.supply left after (List.replicate requests ⟨"GET", "localhost:8080", target, .empty⟩) ∧
        (true = true → ∀ delay, tick.wake = .after delay → left = [] ∧ after.pending "artist1" = []) := by
  intro client target
  have queues : client.Queues "localhost:8080" "artist1" target :=
    ⟨by decide +kernel, "artist1".toList, by decide +kernel, by decide +kernel⟩
  exact ⟨queues, ((ticksEndSoon queues _ .zero {} initial).2 true [] _).2⟩

end TurtleBoard

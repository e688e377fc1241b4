import TurtleBoard.Proofs.Runs

/-! A request that fails means that there is nothing new, and nothing else. What the answers of a service list is what
an artist's moves are, each once and in order, whatever comes between them; and since an artist may always send more,
the stepper of one never ends, and a board with one is never settled. -/
namespace TurtleBoard

def Response.records? {β : Type} (read : Json → Option β) (r : Response) : Option (List β) :=
  if 400 ≤ r.status ∧ r.status < 600 then none else
  match Json.ofBytes? r.body with
  | some .null => some []
  | some (.array items) => items.mapM read
  | _ => none

def Response.actions (answer : Option Response) : List (Action Float) :=
  ((answer.bind (records? Move.ofJson?)).getD []).filterMap fun m => Line.action? m.description

namespace Replies

def heard (url : String) (replies : Replies) : Option Response :=
  (Url.parse? url).bind fun _ => replies.answers.head?.join

def asking (url : String) : List Request :=
  match Url.parse? url with
  | none => []
  | some address => [⟨"GET", address.host, address.target, .empty⟩]

def after (replies : Replies) (requests : List Request) : Replies :=
  ⟨replies.answers.drop requests.length, replies.requests ++ requests⟩

theorem afterNone (replies : Replies) : replies.after [] = replies := by
  rw [after, List.append_nil]
  rfl

theorem afterMore (replies : Replies) (first second : List Request) :
    (replies.after first).after second = replies.after (first ++ second) := by
  simp only [after, List.drop_drop, List.length_append, List.append_assoc]

theorem sendReplies (r : Request) (replies : Replies) :
    Link.send r replies = (replies.answers.head?.join, replies.after [r]) := by
  obtain ⟨answers, requests⟩ := replies
  cases answers <;> rfl

end Replies

namespace Client

theorem recordsOfFine {β : Type} (read : Json → Option β) {r : Response} (fine : r.status < 400 ∨ 600 ≤ r.status) :
    r.records? read = (Json.ofBytes? r.body).bind (Json.list? read) := by
  rw [Response.records?, if_neg (by omega)]
  cases Json.ofBytes? r.body with
  | none => rfl
  | some json => cases json <;> rfl

theorem getReplies {β : Type} (url what : String) (read : Json → Option β) (replies : Replies) :
    ∃ error, get url what read replies =
      (((replies.heard url).bind (Response.records? read)).elim (.error error) .ok,
        replies.after (Replies.asking url)) := by
  cases parsed : Url.parse? url with
  | none =>
    refine ⟨.get url, ?_⟩
    simp only [get, request, parsed, Replies.heard, Replies.asking, Option.bind_none, Option.elim_none,
      Replies.afterNone]
  | some address =>
    simp only [get, request, parsed, Replies.heard, Replies.asking, Option.bind_some, Replies.sendReplies]
    cases replies.answers.head?.join with
    | none => exact ⟨.get url, rfl⟩
    | some r =>
      by_cases fine : r.status < 400 ∨ 600 ≤ r.status
      · have passed : (decide (r.status < 400) || decide (600 ≤ r.status)) = true := by simpa using fine
        refine ⟨.decode what url, ?_⟩
        simp only [Option.filter_some, passed, if_true, Option.bind_some, recordsOfFine read fine]
        cases (Json.ofBytes? r.body).bind (Json.list? read) <;> rfl
      · have refused : (decide (r.status < 400) || decide (600 ≤ r.status)) = false := by simpa using fine
        refine ⟨.get url, ?_⟩
        simp only [Option.filter_some, refused, Bool.false_eq_true, if_false, Option.bind_some, Response.records?]
        rw [if_pos (by omega)]
        rfl

end Client

theorem Source.pollReplies (client : Client) (replies : Replies) :
    (Source.remote client).poll replies =
      ((((replies.heard client.artistsUrl).bind (Response.records? Artist.ofJson?)).getD []).map fun artist =>
          ⟨artist.id, .remote ⟨client, artist.id, []⟩⟩,
        .remote client, replies.after (Replies.asking client.artistsUrl)) := by
  obtain ⟨error, got⟩ := Client.getReplies client.artistsUrl "artists" Artist.ofJson? replies
  simp only [poll, Client.artists, got]
  cases (replies.heard client.artistsUrl).bind (Response.records? Artist.ofJson?) <;> rfl

theorem Replies.actionsHeard (url : String) (replies : Replies) :
    (replies.answers.take (asking url).length).flatMap Response.actions = Response.actions (replies.heard url) := by
  rw [asking, heard]
  cases Url.parse? url with
  | none => rfl
  | some address =>
    cases replies.answers with
    | nil => rfl
    | cons answer answers => exact List.append_nil _

namespace RemoteMoves

theorem refillReplies (r : RemoteMoves) (replies : Replies) :
    r.refill replies =
      ({ r with pending := r.pending ++ Response.actions (replies.heard (r.client.movesUrl r.artistId)) },
        replies.after (Replies.asking (r.client.movesUrl r.artistId))) := by
  obtain ⟨error, got⟩ := Client.getReplies (r.client.movesUrl r.artistId) "moves" Move.ofJson? replies
  simp only [refill, Client.drainMoves, got, Response.actions]
  cases (replies.heard (r.client.movesUrl r.artistId)).bind (Response.records? Move.ofJson?) with
  | none =>
    simp only [Option.elim_none, Option.getD_none, List.filterMap_nil, List.append_nil]
  | some moves => rfl

end RemoteMoves

namespace Moves
variable {ω : Type} [Link ω]

theorem pullBuffered (client : Client) (id : String) (first : Action Float) (rest : List (Action Float)) (link : ω) :
    (Moves.remote ⟨client, id, first :: rest⟩).pull link = (.ready first, .remote ⟨client, id, rest⟩, link) := rfl

theorem pullEmpty (client : Client) (id : String) (link : ω) :
    (Moves.remote ⟨client, id, []⟩).pull link =
      match (RemoteMoves.mk client id []).refill link with
      | (⟨client, id, []⟩, link) => (.waiting, .remote ⟨client, id, []⟩, link)
      | (⟨client, id, first :: rest⟩, link) => (.ready first, .remote ⟨client, id, rest⟩, link) := by
  simp only [pull, RemoteMoves.next, List.isEmpty_nil, if_true]
  rcases (RemoteMoves.mk client id []).refill link with ⟨⟨client, id, _ | ⟨first, rest⟩⟩, link⟩ <;> rfl

theorem pullReplies (client : Client) (id : String) (pending : List (Action Float)) (replies : Replies) :
    let requests := if pending.isEmpty then Replies.asking (client.movesUrl id) else []
    ∃ answer left,
      (Moves.remote ⟨client, id, pending⟩).pull replies = (answer, .remote ⟨client, id, left⟩, replies.after requests) ∧
        answer.action?.toList ++ left =
          pending ++ (replies.answers.take requests.length).flatMap Response.actions := by
  cases pending with
  | cons first rest =>
    refine ⟨.ready first, rest, ?_, ?_⟩
    · rw [pullBuffered]
      exact congrArg (Pull.ready first, Moves.remote ⟨client, id, rest⟩, ·) replies.afterNone.symm
    · exact (List.append_nil _).symm
  | nil =>
    simp only [pullEmpty, RemoteMoves.refillReplies, List.nil_append, List.isEmpty_nil, if_true, Replies.actionsHeard]
    cases Response.actions (replies.heard (client.movesUrl id)) with
    | nil => exact ⟨.waiting, [], rfl, rfl⟩
    | cons first rest => exact ⟨.ready first, rest, rfl, rfl⟩

/- Induction on the pulls: each of them takes the front of what is buffered, after what an answer brings was added. -/
theorem handedReplies (client : Client) (id : String) {pending : List (Action Float)} {replies : Replies}
    {actions : List (Action Float)} {last : Moves × Replies}
    (handed : Handed (Moves.remote ⟨client, id, pending⟩, replies) actions last) :
    ∃ left requests, last = (Moves.remote ⟨client, id, left⟩, replies.after requests) ∧
      actions ++ left = pending ++ (replies.answers.take requests.length).flatMap Response.actions := by
  generalize start : (Moves.remote ⟨client, id, pending⟩, replies) = supply at handed
  induction handed generalizing pending replies with
  | rest supply =>
    refine ⟨pending, [], ?_, (List.append_nil _).symm⟩
    rw [replies.afterNone, start]
  | @pulled supply next last answer actions pull later ih =>
    obtain ⟨found, left, pulled, kept⟩ := pullReplies client id pending replies
    generalize (if pending.isEmpty then Replies.asking (client.movesUrl id) else []) = first at pulled kept
    have same : (answer, next) = (found, Moves.remote ⟨client, id, left⟩, replies.after first) := by
      rw [← pull, ← start]
      exact pulled
    obtain ⟨rfl, rfl⟩ := Prod.mk.inj same
    obtain ⟨rest, second, ended, gathered⟩ := ih rfl
    refine ⟨rest, first ++ second, ?_, ?_⟩
    · rw [ended, Replies.afterMore]
    · calc answer.action?.toList ++ actions ++ rest
        _ = answer.action?.toList ++ left ++
            ((replies.answers.drop first.length).take second.length).flatMap Response.actions := by
          rw [List.append_assoc, gathered, ← List.append_assoc]
          rfl
        _ = pending ++ (replies.answers.take (first ++ second).length).flatMap Response.actions := by
          rw [kept, List.append_assoc, ← List.flatMap_append, ← List.take_add, List.length_append]

def isRemote : Moves → Bool
  | .remote _ => true
  | .script _ => false

theorem pullKind (moves : Moves) (link : ω) : (moves.pull link).2.1.isRemote = moves.isRemote := by
  cases moves with
  | script sequence => rfl
  | remote r =>
    simp only [pull]
    rcases r.next link with ⟨_ | action, r, link⟩ <;> rfl

theorem pullEndless {moves : Moves} (remote : moves.isRemote = true) (link : ω) : (moves.pull link).1 ≠ .done := by
  cases moves with
  | script sequence => contradiction
  | remote r =>
    simp only [pull]
    rcases r.next link with ⟨_ | action, r, link⟩ <;> exact nofun

theorem handedKind {supply last : Moves × ω} {actions : List (Action Float)} (handed : Handed supply actions last) :
    last.1.isRemote = supply.1.isRemote := by
  induction handed with
  | rest supply => rfl
  | @pulled supply next last answer actions pull later ih =>
    have kind := pullKind supply.1 supply.2
    have same : supply.1.pull supply.2 = (answer, next) := pull
    rw [same] at kind
    exact ih.trans kind

end Moves

namespace Stepper
variable {α σ : Type} [Trig α] [Supply σ α] {P : σ → Prop}
  (endless : ∀ supply, P supply → (Supply.pull supply).1 ≠ .done ∧ P (Supply.pull supply).2)
include endless

theorem takeUpToEndless (rules : Rules α) (now : Duration) (fuel : Nat) {supply : σ} (s : Stepper α)
    (holds : P supply) : (s.takeUpTo rules now fuel supply).stepper.phase ≠ .finished := by
  have waits : Phase.waiting ≠ .finished := by decide
  have steps : Phase.stepping ≠ .finished := by decide
  induction fuel generalizing supply s with
  | zero => exact waits
  | succ fuel ih =>
    obtain ⟨more, next⟩ := endless supply holds
    rw [takeUpTo]
    split
    · exact waits
    · rename_i done
      rw [done] at more
      contradiction
    · rename_i ready
      rw [ready] at next
      split
      · exact steps
      · exact ih _ next

theorem tickEndless (rules : Rules α) (now : Duration) (pace : Pace) {supply : σ} {s : Stepper α}
    (running : s.phase ≠ .finished) (holds : P supply) :
    (s.tick rules now pace supply).stepper.phase ≠ .finished := by
  cases ended : s.isDue now || pace.accelerate with
  | false =>
    rw [tickInFlight rules now pace supply running ended, showAtPhase]
    exact running
  | true =>
    rw [tickLanding rules now pace supply running ended]
    simp only [showAtPhase]
    exact takeUpToEndless endless rules now _ _ holds

end Stepper

namespace Board
variable {ω : Type} [Link ω]

def Enduring (b : Board) : Prop :=
  ∀ id actor, b.actors.get? id = some actor → actor.moves.isRemote = true → actor.stepper.phase ≠ .finished

theorem Enduring.insert {b : Board} (enduring : b.Enduring) {c : Board} {id : String} {actor : Actor}
    (actors : c.actors = b.actors.insert id actor)
    (running : actor.moves.isRemote = true → actor.stepper.phase ≠ .finished) : c.Enduring := by
  intro other found get
  rw [actors] at get
  by_cases same : id = other
  · subst same
    rw [OrderedMap.getInsertSelf] at get
    obtain rfl := Option.some.inj get
    exact running
  · rw [OrderedMap.getInsertOther _ _ same] at get
    exact enduring other found get

theorem tickRunning (b : Board) (now : Duration) {actor : Actor} (link : ω)
    (running : actor.moves.isRemote = true → actor.stepper.phase ≠ .finished) :
    (actor.ticked now (b.tickOf now actor link)).moves.isRemote = true →
      (actor.ticked now (b.tickOf now actor link)).stepper.phase ≠ .finished := by
  intro remote
  have kind := Moves.handedKind (Stepper.tickHanded b.rules now b.pace (actor.moves, link) actor.stepper)
  have before : actor.moves.isRemote = true := kind.symm.trans remote
  have endless : ∀ supply : Moves × ω, supply.1.isRemote = true →
      (Supply.pull supply).1 ≠ .done ∧ (Supply.pull supply).2.1.isRemote = true := fun supply remote =>
    ⟨Moves.pullEndless remote supply.2, (Moves.pullKind supply.1 supply.2).trans remote⟩
  exact Stepper.tickEndless endless b.rules now b.pace (running before) before

theorem performEnduring {b : Board} (enduring : b.Enduring) (link : ω) (act : Act) :
    (b.perform link act).board.Enduring := by
  cases act with
  | connect now newcomers =>
    exact connectInduct (P := fun b _ => b.Enduring) [] now newcomers enduring
      fun b done newcomer _ enduring => enduring.insert rfl fun _ => nofun
  | advance now =>
    refine advanceInduct (P := fun b _ _ => b.Enduring) enduring ?_
    intro b link done id actor here due enduring
    obtain ⟨bubbles, nextBubble, same⟩ := turnBoard b now id actor link
    rw [same]
    exact enduring.insert rfl (tickRunning b now link (enduring id actor here))
  | resize width height => exact enduring
  | signal signal => exact enduring
  | toggleHold => exact enduring

theorem runEnduring (config : Config) (draws : Draws) (acts : List (Act × ω)) :
    ((ofConfig config draws).after acts).Enduring := by
  have start : (ofConfig config draws).Enduring := fun _ _ get => nomatch get
  exact runInduct (P := fun b _ => b.Enduring) [] start
    fun b done act link mem enduring => performEnduring enduring link act

theorem unsettledBy {b : Board} {id : String} {actor : Actor} (here : b.actors.get? id = some actor)
    (running : actor.isFinished = false) : b.isSettled = false := by
  have listed : actor ∈ b.actors.values :=
    List.mem_map.mpr ⟨(id, actor), (OrderedMap.memEntries b.actors id actor).mpr here, rfl⟩
  rw [isSettled, Bool.and_eq_false_iff]
  right
  rw [List.all_eq_false]
  exact ⟨actor, listed, by rw [running]; exact Bool.false_ne_true⟩

end Board

/- What is made of the answers to a client, whatever they are: polls get the roster that an answer lists; pulls hand out
what the answers bring, after one request where nothing is buffered and none where something is; a failed request
changes nothing, and no pull is the last. So no run of a board ends an artist of the service. -/
structure Client.Patient (client : Client) : Prop where
  polled : ∀ replies : Replies,
    (Source.remote client).poll replies =
      ((((replies.heard client.artistsUrl).bind (Response.records? Artist.ofJson?)).getD []).map fun artist =>
          ⟨artist.id, .remote ⟨client, artist.id, []⟩⟩,
        .remote client, replies.after (Replies.asking client.artistsUrl))
  gathered : ∀ (id : String) (pending : List (Action Float)) (replies : Replies) (actions : List (Action Float))
    (last : Moves × Replies), Handed (Moves.remote ⟨client, id, pending⟩, replies) actions last →
    ∃ left requests, last = (Moves.remote ⟨client, id, left⟩, replies.after requests) ∧
      actions ++ left = pending ++ (replies.answers.take requests.length).flatMap Response.actions
  asked : ∀ (id : String) (replies : Replies),
    ((Moves.remote ⟨client, id, []⟩).pull replies).2.2 = replies.after (Replies.asking (client.movesUrl id))
  buffered : ∀ (ω : Type) [Link ω] (id : String) (first : Action Float) (rest : List (Action Float)) (link : ω),
    (Moves.remote ⟨client, id, first :: rest⟩).pull link = (.ready first, .remote ⟨client, id, rest⟩, link)
  failed : ∀ (ω : Type) [Link ω] (id : String) (pending : List (Action Float)) (error : ClientError) (before after : ω),
    client.drainMoves id before = (.error error, after) →
    (RemoteMoves.mk client id pending).refill before = (⟨client, id, pending⟩, after)
  endless : ∀ (ω : Type) [Link ω] (id : String) (pending : List (Action Float)) (link : ω),
    ((Moves.remote ⟨client, id, pending⟩).pull link).1 ≠ .done
  enduring : ∀ (ω : Type) [Link ω] (config : Config) (draws : Draws) (acts : List (Board.Act × ω)) (id : String)
    (actor : Actor) (artistId : String) (pending : List (Action Float)),
    ((Board.ofConfig config draws).after acts).actors.get? id = some actor →
    actor.moves = .remote ⟨client, artistId, pending⟩ →
    actor.isFinished = false ∧ ((Board.ofConfig config draws).after acts).isSettled = false

theorem Client.patient (client : Client) : client.Patient where
  polled := Source.pollReplies client
  gathered := fun id _ _ _ _ handed => Moves.handedReplies client id handed
  asked := by
    intro id replies
    obtain ⟨answer, left, pulled, _⟩ := Moves.pullReplies client id [] replies
    rw [pulled]
    rfl
  buffered := fun _ _ id first rest link => Moves.pullBuffered client id first rest link
  failed := by
    intro ω _ id pending error before after drained
    simp only [RemoteMoves.refill, drained]
  endless := fun _ _ _ _ link => Moves.pullEndless rfl link
  enduring := by
    intro ω _ config draws acts id actor artistId pending here remote
    have running := Board.runEnduring config draws acts id actor here (by rw [remote]; rfl)
    have unfinished : actor.isFinished = false := beq_eq_false_iff_ne.mpr running
    exact ⟨unfinished, Board.unsettledBy here unfinished⟩

end TurtleBoard

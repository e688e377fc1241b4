import TurtleBoard.Proofs.Exchange
import TurtleBoard.Proofs.Requests

/-! Whom the calls of a client are about. An id is put into the address as it is, and the service takes an id out of the
address that is sent: this is the same one if nothing in it ends a segment, is dropped, or is taken for code, and is
none if it is a dot segment. Other ids can name other artists, whose moves are then taken or added to. -/
namespace TurtleBoard

namespace Client

def named? (c : Client) (host id : String) : Option String := do
  let url ← Url.parse? (c.movesUrl id)
  if url.host = host then (Request.mk "GET" url.host url.target .empty).queue? else none

variable {c : Client} {host id : String}

theorem namedIff {artist : String} : c.named? host id = some artist ↔ ∃ target coded,
    Url.parse? (c.movesUrl id) = some ⟨host, target⟩ ∧ Route.ofTarget? target = some (.moves coded) ∧
      Percent.decode? coded = some artist := by
  simp only [named?, Option.bind_eq_bind, Option.bind_eq_some_iff, Option.ite_none_right_eq_some]
  constructor
  · rintro ⟨⟨_, target⟩, parsed, rfl, queue⟩
    rw [Request.queue?] at queue
    split at queue
    · rename_i coded route
      exact ⟨target, coded, parsed, route, queue⟩
    · contradiction
    · contradiction
  · rintro ⟨target, coded, parsed, route, decoded⟩
    refine ⟨_, parsed, rfl, ?_⟩
    simp only [Request.queue?, route, decoded]

section
variable {artist : String} (named : c.named? host id = some artist)
include named

theorem drainsNamed (s : Store) :
    c.drainMoves id (Network.mk host (some s)) =
      (.ok (s.pending artist), Network.mk host (some (s.drain artist).2)) := by
  obtain ⟨target, coded, parsed, route, decoded⟩ := namedIff.mp named
  exact drainNamed parsed route decoded s

theorem addsNamed {description : String} (fits : (NewMove.toJson ⟨description⟩).toBytes.size ≤ Service.bodyLimit)
    {s : Store} (registered : s.hasArtist artist = true) :
    c.addMove id description (Network.mk host (some s)) =
      (.ok (s.push artist description).1, Network.mk host (some (s.push artist description).2)) := by
  obtain ⟨target, coded, parsed, route, decoded⟩ := namedIff.mp named
  exact addNamed parsed route decoded fits registered

theorem refusesNamed {description : String} {s : Store}
    (refused : Service.bodyLimit < (NewMove.toJson ⟨description⟩).toBytes.size ∨ s.hasArtist artist = false) :
    c.addMove id description (Network.mk host (some s)) =
      (.error (.post (c.movesUrl id)), Network.mk host (some s)) := by
  obtain ⟨target, coded, parsed, route, decoded⟩ := namedIff.mp named
  exact addNamedRefused parsed route decoded refused

end

theorem namedNone (astray : c.named? host id = none) {url : Url} (parsed : Url.parse? (c.movesUrl id) = some url)
    (here : url.host = host) (method : String) (body : ByteArray) :
    (Request.mk method url.host url.target body).queue? = none := by
  subst here
  simp only [named?, parsed, Option.bind_eq_bind, Option.bind_some, if_true] at astray
  exact astray

theorem requestElsewhere {url : String} {address : Url} (parsed : Url.parse? url = some address)
    (elsewhere : address.host ≠ host) (method : String) (body : ByteArray) (s : Store) :
    request method url body (Network.mk host (some s)) = (none, Network.mk host (some s)) := by
  simp only [request, parsed, Link.send, Network.send, if_neg elsewhere, Option.filter_none]

theorem requestUnread {url : String} (unread : Url.parse? url = none) (method : String) (body : ByteArray)
    (n : Network) : request method url body n = (none, n) := by
  simp only [request, unread]

theorem errorBringsNone (error : ClientError) (expected : List Move) :
    ∀ moves, Except.error error = Except.ok moves → moves = expected := by
  intro moves same
  cases same

theorem drainLists {target : String} (parsed : Url.parse? (c.movesUrl id) = some ⟨host, target⟩) (s : Store) :
    ∃ result, c.drainMoves id (Network.mk host (some s)) =
        (result, Network.mk host (some (Service.answer ⟨"GET", host, target, .empty⟩ s).2)) ∧
      ∀ moves, result = .ok moves → moves = (Service.answer ⟨"GET", host, target, .empty⟩ s).1.moves := by
  rw [drainMoves, get, requestUp parsed]
  generalize Service.answer ⟨"GET", host, target, .empty⟩ s = answered
  rw [Option.filter_some]
  cases decide (answered.1.status < 400) || decide (600 ≤ answered.1.status) with
  | false => exact ⟨_, rfl, errorBringsNone _ _⟩
  | true =>
    simp only [if_true]
    cases read : (Json.ofBytes? answered.1.body).bind (Json.list? Move.ofJson?) with
    | none => exact ⟨_, rfl, errorBringsNone _ _⟩
    | some records =>
      refine ⟨_, rfl, ?_⟩
      intro moves same
      cases same
      rw [Response.moves, Response.record?, read, Option.getD_some]

theorem drainAstray (astray : c.named? host id = none) (s : Store) :
    ∃ result, c.drainMoves id (Network.mk host (some s)) = (result, Network.mk host (some s)) ∧
      ∀ moves, result = .ok moves → moves = [] := by
  cases parsed : Url.parse? (c.movesUrl id) with
  | none =>
    refine ⟨.error (.get (c.movesUrl id)), ?_, errorBringsNone _ _⟩
    rw [drainMoves, get, requestUnread parsed]
  | some address =>
    by_cases here : address.host = host
    · have queue := namedNone astray parsed here "GET" .empty
      obtain ⟨reached, target⟩ := address
      cases here
      obtain ⟨result, received, listed⟩ := drainLists parsed s
      have outcome := Service.answerOutcome ⟨"GET", reached, target, .empty⟩ s
      generalize Service.answer ⟨"GET", reached, target, .empty⟩ s = answered at received listed outcome
      have other : "GET" ≠ "POST" := by decide
      cases outcome with
      | refused _ silent => exact ⟨result, received, fun moves ok => (listed moves ok).trans silent⟩
      | roster _ _ _ silent => exact ⟨result, received, fun moves ok => (listed moves ok).trans silent⟩
      | created method => exact absurd method other
      | added method => exact absurd method other
      | taken _ named => exact absurd (queue.symm.trans named) (Option.some_ne_none _).symm
      | dropped _ named => exact absurd (queue.symm.trans named) (Option.some_ne_none _).symm
    · refine ⟨.error (.get (c.movesUrl id)), ?_, errorBringsNone _ _⟩
      rw [drainMoves, get, requestElsewhere parsed here]

end Client

/- A new move that is posted anywhere but to an artist's moves is refused: the roster does not take it for an artist. -/
theorem Service.moveAstray {host target description : String}
    (astray : (Request.mk "POST" host target (NewMove.toJson ⟨description⟩).toBytes).queue? = none) (s : Store) :
    ∃ response, answer ⟨"POST", host, target, (NewMove.toJson ⟨description⟩).toBytes⟩ s = (response, s) ∧
      400 ≤ response.status ∧ response.status < 600 := by
  have unnamed : NewArtist.ofJson? (NewMove.toJson ⟨description⟩) = none := by
    have fields : (NewMove.toJson ⟨description⟩).fields? ["Name"] = some [none] := Json.fieldsOfFields _ _
    simp only [NewArtist.ofJson?, fields, Option.bind_eq_bind, Option.bind_some]
  cases route : Route.ofTarget? target with
  | none =>
    simp only [answer, route]
    exact ⟨_, rfl, by decide⟩
  | some reached =>
    cases reached with
    | artists =>
      simp only [answer, route, post, createArtist]
      split
      · exact ⟨_, rfl, by decide⟩
      · rw [Json.ofToBytes (NewMove.reads ⟨description⟩), Option.bind_some, unnamed]
        exact ⟨_, rfl, by decide⟩
    | moves coded =>
      have undecoded : Percent.decode? coded = none := by simpa only [Request.queue?, route] using astray
      simp only [answer, route, post, createMove, undecoded]
      exact ⟨_, rfl, by decide⟩

namespace Client
variable {c : Client} {host id : String}

theorem addAstray (astray : c.named? host id = none) (description : String) (s : Store) :
    c.addMove id description (Network.mk host (some s)) =
      (.error (.post (c.movesUrl id)), Network.mk host (some s)) := by
  cases parsed : Url.parse? (c.movesUrl id) with
  | none => rw [addMove, post, requestUnread parsed]
  | some address =>
    by_cases here : address.host = host
    · have queue := namedNone astray parsed here "POST" (NewMove.toJson ⟨description⟩).toBytes
      obtain ⟨reached, target⟩ := address
      cases here
      obtain ⟨response, answered, refused⟩ := Service.moveAstray queue s
      exact postRefused parsed answered refused
    · rw [addMove, post, requestElsewhere parsed here]

structure Exact (c : Client) (host id : String) (s : Store) : Prop where
  drain : c.drainMoves id (Network.mk host (some s)) = (.ok (s.pending id), Network.mk host (some (s.drain id).2)) ∨
    ∃ result after, c.drainMoves id (Network.mk host (some s)) = (result, Network.mk host (some after)) ∧
      (∀ moves, result = .ok moves → moves = []) ∧ ∀ artist, after.pending artist = s.pending artist
  add : ∀ description,
    (s.hasArtist id = true ∧ c.addMove id description (Network.mk host (some s)) =
      (.ok (s.push id description).1, Network.mk host (some (s.push id description).2))) ∨
    ∃ error, c.addMove id description (Network.mk host (some s)) = (.error error, Network.mk host (some s))

theorem exactOfNone (astray : c.named? host id = none) (s : Store) : c.Exact host id s where
  drain := by
    obtain ⟨result, drained, silent⟩ := drainAstray astray s
    exact .inr ⟨result, s, drained, silent, fun _ => rfl⟩
  add := fun description => .inr ⟨_, addAstray astray description s⟩

theorem exactOfSelf (named : c.named? host id = some id) (s : Store) : c.Exact host id s := by
  refine ⟨.inl (drainsNamed named s), ?_⟩
  intro description
  by_cases refused : Service.bodyLimit < (NewMove.toJson ⟨description⟩).toBytes.size ∨ s.hasArtist id = false
  · exact .inr ⟨_, refusesNamed named refused⟩
  · obtain ⟨fits, registered⟩ := not_or.mp refused
    have known := eq_true_of_ne_false registered
    exact .inl ⟨known, addsNamed named (Nat.not_lt.mp fits) known⟩

theorem exactOfStranger {artist : String} (named : c.named? host id = some artist) {s : Store}
    (nothing : s.pending artist = []) (stranger : s.hasArtist artist = false) : c.Exact host id s := by
  refine ⟨.inr ⟨_, _, drainsNamed named s, ?_, ?_⟩, ?_⟩
  · intro moves same
    cases same
    exact nothing
  · intro other
    rw [Store.pendingDrain]
    split
    · rename_i same
      rw [same, nothing]
    · rfl
  · intro description
    exact .inr ⟨_, refusesNamed named (.inr stranger)⟩

theorem strangerOfExact {artist : String} (named : c.named? host id = some artist) (other : artist ≠ id) {s : Store}
    (exact : c.Exact host id s) : s.pending artist = [] ∧ s.hasArtist artist = false := by
  constructor
  · have drained := drainsNamed named s
    rcases exact.drain with own | ⟨result, after, outcome, silent, -⟩
    · rw [own, Prod.mk.injEq, Network.mk.injEq, Option.some_inj] at drained
      have left := congrArg (Store.pending · artist) drained.2.2
      simp only [Store.pendingDrain, if_true, if_neg other] at left
      exact left
    · rw [outcome, Prod.mk.injEq] at drained
      exact silent _ drained.1
  · by_contra registered
    have known := eq_true_of_ne_false registered
    have fits : (NewMove.toJson ⟨""⟩).toBytes.size ≤ Service.bodyLimit := by decide
    have added := addsNamed named fits known
    rcases exact.add "" with ⟨-, own⟩ | ⟨error, outcome⟩
    · rw [own, Prod.mk.injEq, Network.mk.injEq, Option.some_inj] at added
      have queued := congrArg (Store.pending · artist) added.2.2
      simp only [Store.pendingPush, if_true, if_neg other, List.append_nil] at queued
      have longer := congrArg List.length queued
      rw [List.length_append, List.length_singleton] at longer
      omega
    · rw [outcome, Prod.mk.injEq] at added
      obtain ⟨failed, -⟩ := added
      cases failed

theorem namedSafe {host : String} (plain : Url.PlainHost host.toList) {id : String}
    (safe : id.toList.all Url.isSafe = true) :
    (Client.ofBase ("http://" ++ host)).named? host id = if id = "." ∨ id = ".." then none else some id := by
  have uncoded : ∀ c ∈ id.toList, c ≠ '%' := fun c mem => (Url.safeChar safe mem).uncoded
  have astray (path : Url.sentPath (Url.toMoves id) = "/api/artists/moves".toList ∨
      Url.sentPath (Url.toMoves id) = "/api/moves".toList) :
      (Client.ofBase ("http://" ++ host)).named? host id = none := by
    have route : Route.ofTarget? (String.ofList (Url.sentPath (Url.toMoves id))) = none := by
      rcases path with path | path <;> rw [path] <;> decide
    simp only [named?, movesParsed plain safe, Option.bind_eq_bind, Option.bind_some, if_true, Request.queue?, route]
  by_cases same : id = "."
  · subst same
    exact astray (.inl rfl)
  · by_cases above : id = ".."
    · subst above
      exact astray (.inr rfl)
    · have level : Url.Level id.toList :=
        ⟨uncoded, fun dots => same (String.toList_injective dots), fun dots => above (String.toList_injective dots)⟩
      obtain ⟨target, parsed, route⟩ := movesRoute plain safe level
      have decoded : Percent.decode? (Percent.encode Percent.isPlainInPath id.toList) = some id := by
        rw [Percent.decodeEncode uncoded, String.ofList_toList]
      rw [if_neg (not_or.mpr ⟨same, above⟩)]
      exact namedIff.mpr ⟨target, _, parsed, route, decoded⟩

structure Naming (c : Client) (host id : String) : Prop where
  drained : ∀ artist s, c.named? host id = some artist → c.drainMoves id (Network.mk host (some s)) =
    (.ok (s.pending artist), Network.mk host (some (s.drain artist).2))
  added : ∀ artist description s, c.named? host id = some artist →
    (NewMove.toJson ⟨description⟩).toBytes.size ≤ Service.bodyLimit → s.hasArtist artist = true →
      c.addMove id description (Network.mk host (some s)) =
        (.ok (s.push artist description).1, Network.mk host (some (s.push artist description).2))
  refused : ∀ artist description s, c.named? host id = some artist →
    Service.bodyLimit < (NewMove.toJson ⟨description⟩).toBytes.size ∨ s.hasArtist artist = false →
      c.addMove id description (Network.mk host (some s)) =
        (.error (.post (c.movesUrl id)), Network.mk host (some s))
  astray : c.named? host id = none → ∀ s,
    (∃ result, c.drainMoves id (Network.mk host (some s)) = (result, Network.mk host (some s)) ∧
      ∀ moves, result = .ok moves → moves = []) ∧
    ∀ description, c.addMove id description (Network.mk host (some s)) =
      (.error (.post (c.movesUrl id)), Network.mk host (some s))
  exact : ∀ s, c.Exact host id s ↔ ∀ artist, c.named? host id = some artist →
    artist = id ∨ s.pending artist = [] ∧ s.hasArtist artist = false
  safe : c = .ofBase ("http://" ++ host) → Url.PlainHost host.toList → id.toList.all Url.isSafe = true →
    c.named? host id = (if id = "." ∨ id = ".." then none else some id) ∧ ∀ s, c.Exact host id s

/- The calls for an id act on the artist that the service finds in the address, which is the artist with that id unless
the id is resolved, ends its segment, is in part dropped or taken for code. -/
theorem callsActAsNamed (c : Client) (host id : String) : c.Naming host id where
  drained := fun _ s named => drainsNamed named s
  added := fun _ _ _ named fits registered => addsNamed named fits registered
  refused := fun _ _ _ named refused => refusesNamed named refused
  astray := fun astray s => ⟨drainAstray astray s, fun description => addAstray astray description s⟩
  exact := by
    intro s
    constructor
    · intro exact artist named
      exact (eq_or_ne artist id).imp_right fun other => strangerOfExact named other exact
    · intro only
      cases named : c.named? host id with
      | none => exact exactOfNone named s
      | some artist =>
        rcases only artist named with rfl | ⟨nothing, stranger⟩
        · exact exactOfSelf named s
        · exact exactOfStranger named nothing stranger
  safe := by
    rintro rfl plain safe
    have named := namedSafe plain safe
    refine ⟨named, fun s => ?_⟩
    split at named
    · exact exactOfNone named s
    · exact exactOfSelf named s

theorem callsActAsNamedAtLocalhost :
    Url.PlainHost "localhost:8080".toList ∧ "café; blue".toList.all Url.isSafe = true ∧
      (ofBase ("http://" ++ "localhost:8080")).named? "localhost:8080" "café; blue" = some "café; blue" ∧
      ∀ s, (ofBase ("http://" ++ "localhost:8080")).Exact "localhost:8080" "café; blue" s := by
  have plain : Url.PlainHost "localhost:8080".toList := ⟨by decide, rfl, rfl⟩
  have safe : "café; blue".toList.all Url.isSafe = true := rfl
  obtain ⟨named, exact⟩ := (callsActAsNamed _ "localhost:8080" "café; blue").safe rfl plain safe
  exact ⟨plain, safe, named, exact⟩

theorem codedIdNamesAnother :
    let c := ofBase ("http://" ++ "localhost:8080")
    let s := (Store.create {} "Ann").2
    c.named? "localhost:8080" "artist%31" = some "artist1" ∧
      c.drainMoves "artist%31" (Network.mk "localhost:8080" (some s)) =
        (.ok [⟨"move1", "say Ann"⟩], Network.mk "localhost:8080" (some (s.drain "artist1").2)) ∧
      ¬c.Exact "localhost:8080" "artist%31" s := by
  intro c s
  have named : c.named? "localhost:8080" "artist%31" = some "artist1" := by decide +kernel
  refine ⟨named, drainsNamed named s, ?_⟩
  intro exact
  have waits : s.pending "artist1" = [⟨"move1", "say Ann"⟩] := rfl
  have nothing := (strangerOfExact named (by decide) exact).1
  rw [waits] at nothing
  exact List.cons_ne_nil _ _ nothing

end Client
end TurtleBoard

import TurtleBoard.Proofs.Board
import TurtleBoard.Proofs.Exchange
import TurtleBoard.Proofs.Log

/-! No move is lost on its way, none comes twice, and none overtakes another. A service, a client that posts and a
board that shows the artists act in any order, and the service may go out of reach at any time. For each artist, what
its actor has taken, what the actor holds and what is queued are together the moves that were posted, in their order. -/
namespace TurtleBoard

def Actor.buffer (a : Actor) : List (Action Float) :=
  match a.moves with
  | .remote moves => moves.pending
  | .script _ => []

/- A service, a client that posts and a board that reads, with what is known of a run afterwards: the actions that
actors have taken, and the moves whose posting succeeded, each with its artist. -/
structure World where
  host : String
  poster : Client
  reader : Client
  board : Board
  store : Store := {}
  reachable : Bool := true
  taken : List (String × Action Float) := []
  posted : List (String × String) := []

namespace World

def start (host : String) (poster reader : Client) (config : Config) (draws : Draws) : World :=
  { host, poster, reader, board := .ofConfig config draws }

def network (w : World) : Network := .serving w.host w.reachable w.store

def storeAfter (w : World) (n : Network) : Store := n.service.getD w.store

def takings (turns : List (Board.Turn Network)) : List (String × Action Float) :=
  turns.flatMap fun turn => turn.tick.taken.map (turn.id, ·)

def operate (w : World) (act : Board.Act) : World :=
  let outcome := w.board.perform w.network act
  { w with board := outcome.board, store := w.storeAfter outcome.link, taken := w.taken ++ takings outcome.turns }

theorem networkUp {w : World} (reachable : w.reachable = true) : w.network = Network.mk w.host (some w.store) := by
  rw [network, Network.serving, reachable, if_pos rfl]

theorem networkDown {w : World} (unreachable : w.reachable = false) : w.network = Network.mk w.host none := by
  rw [network, Network.serving, unreachable, if_neg Bool.false_ne_true]

theorem storeAfterSelf (w : World) : w.storeAfter w.network = w.store := by
  cases reachable : w.reachable with
  | true => rw [networkUp reachable, storeAfter, Option.getD_some]
  | false => rw [networkDown reachable, storeAfter, Option.getD_none]

inductive Event where
  | create (name : String)
  | post (number : Nat) (description : String)
  | poll (now : Duration)
  | advance (now : Duration)
  | resize (width height : Float)
  | signal (signal : Signal)
  | toggleHold
  | reach (reachable : Bool)

def step (w : World) : Event → World
  | .create name => { w with store := w.storeAfter (w.poster.createArtist name w.network).2 }
  | .post number description =>
      match w.poster.addMove (Store.artistId number) description w.network with
      | (.ok _, network) =>
          { w with store := w.storeAfter network, posted := w.posted ++ [(Store.artistId number, description)] }
      | (.error _, network) => { w with store := w.storeAfter network }
  | .poll now =>
      let (newcomers, _, network) := (Source.remote w.reader).poll w.network
      { w with store := w.storeAfter network }.operate (.connect now newcomers)
  | .advance now => w.operate (.advance now)
  | .resize width height => w.operate (.resize width height)
  | .signal signal => w.operate (.signal signal)
  | .toggleHold => w.operate .toggleHold
  | .reach reachable => { w with reachable }

def run : World → List Event → World := List.foldl step

def takenBy (w : World) (id : String) : List (Action Float) := logOf id w.taken
def postedTo (w : World) (id : String) : List String := logOf id w.posted
def held (w : World) (id : String) : List (Action Float) := ((w.board.actors.get? id).map Actor.buffer).getD []

def flow (w : World) (id : String) : List (Action Float) := w.takenBy id ++ w.held id ++ w.store.actions id

def Staffed (w : World) : Prop :=
  ∀ id actor, w.board.actors.get? id = some actor →
    w.store.hasArtist id = true ∧ ∃ buffer, actor.moves = .remote ⟨w.reader, id, buffer⟩

structure Sound (w : World) : Prop where
  numbered : w.store.Numbered
  staffed : w.Staffed
  unknown : ∀ id, w.store.hasArtist id = false → w.flow id = [] ∧ w.postedTo id = []
  conserved : ∀ artist ∈ w.store.artists,
    w.flow artist.id = (("say " ++ artist.name) :: w.postedTo artist.id).filterMap Line.action?

structure Quiet (w after : World) : Prop where
  artists : after.store.artists = w.store.artists
  artistCount : after.store.artistCount = w.store.artistCount
  posted : after.posted = w.posted
  flow : ∀ id, after.flow id = w.flow id

theorem quietSound {w after : World} (sound : w.Sound) (quiet : w.Quiet after) (staffed : after.Staffed) :
    after.Sound := by
  have posted (id : String) : after.postedTo id = w.postedTo id := congrArg (logOf id) quiet.posted
  have known (id : String) : after.store.hasArtist id = w.store.hasArtist id := by
    simp only [Store.hasArtist, quiet.artists]
  constructor
  · simpa only [Store.Numbered, quiet.artists, quiet.artistCount] using sound.numbered
  · exact staffed
  · intro id stranger
    rw [known] at stranger
    rw [quiet.flow, posted]
    exact sound.unknown id stranger
  · intro artist mem
    rw [quiet.artists] at mem
    rw [quiet.flow, posted]
    exact sound.conserved artist mem

theorem takingsAppend (first second : List (Board.Turn Network)) :
    takings (first ++ second) = takings first ++ takings second := List.flatMap_append

/- The world while an advance is under way: the board and the link after the turns so far. -/
structure Between (w : World) (b : Board) (link : Network) (turns : List (Board.Turn Network)) (store : Store) :
    Prop where
  link : link = .serving w.host w.reachable store
  silent : w.reachable = false → store = w.store
  sound : Sound { w with board := b, store, taken := w.taken ++ takings turns }

theorem heldRemote {w : World} {id : String} {actor : Actor} {client : Client} {buffer : List (Action Float)}
    (here : w.board.actors.get? id = some actor) (remote : actor.moves = .remote ⟨client, id, buffer⟩) :
    w.held id = buffer := by
  simp only [held, here, Option.map_some, Option.getD_some, Actor.buffer, remote]

theorem turnDelivery {w : World} (reading : w.reader.Addresses w.host) (now : Duration) {n : Nat} {actor : Actor}
    {buffer : List (Action Float)} (remote : actor.moves = .remote ⟨w.reader, Store.artistId n, buffer⟩) :
    let turn := w.board.turn now (Store.artistId n) actor w.network
    ∃ after left store, turn.1.actors.get? (Store.artistId n) = some after ∧
      after.moves = .remote ⟨w.reader, Store.artistId n, left⟩ ∧ turn.2.1 = .serving w.host w.reachable store ∧
      Delivery (Store.artistId n) w.reachable buffer w.store turn.2.2.tick.taken left store := by
  intro turn
  obtain ⟨bubbles, nextBubble, board⟩ := Board.turnBoard w.board now (Store.artistId n) actor w.network
  have handed := Stepper.tickHanded w.board.rules now w.board.pace (actor.moves, w.network) actor.stepper
  change Handed _ (w.board.tickOf now actor w.network).taken (w.board.tickOf now actor w.network).supply at handed
  have ticked := Board.turnTick w.board now (Store.artistId n) actor w.network
  have link := Board.turnLink w.board now (Store.artistId n) actor w.network
  generalize w.board.tickOf now actor w.network = tick at board handed ticked link
  rw [remote] at handed
  obtain ⟨left, store, supply, delivery⟩ := RemoteMoves.handedRemote reading n handed
  refine ⟨actor.ticked now tick, left, store, ?_, congrArg Prod.fst supply, link.trans (congrArg Prod.snd supply), ?_⟩
  · simp only [turn, board, OrderedMap.getInsertSelf]
  · simp only [turn, ticked]
    exact delivery

theorem turnSound {w : World} (reading : w.reader.Addresses w.host) (sound : w.Sound) (now : Duration) {id : String}
    {actor : Actor} (here : w.board.actors.get? id = some actor) :
    let turn := w.board.turn now id actor w.network
    ∃ store, w.Between turn.1 turn.2.1 [turn.2.2] store := by
  intro turn
  obtain ⟨registered, buffer, remote⟩ := sound.staffed id actor here
  obtain ⟨n, _, rfl⟩ := Store.numberedId sound.numbered registered
  obtain ⟨after, left, store, owned, moves, link, delivery⟩ := turnDelivery reading now remote
  have others {other : String} (unlike : other ≠ Store.artistId (n + 1)) :
      turn.1.actors.get? other = w.board.actors.get? other :=
    Board.getTurnOther w.board now actor w.network (Ne.symm unlike)
  have takings : takings [turn.2.2] = turn.2.2.tick.taken.map (Store.artistId (n + 1), ·) :=
    List.flatMap_singleton _ _
  refine ⟨store, link, delivery.silent, quietSound sound ⟨delivery.out.artists, delivery.out.artistCount, rfl, ?_⟩ ?_⟩
  · intro other
    by_cases own : other = Store.artistId (n + 1)
    · subst own
      have before := heldRemote here remote
      have afterwards := heldRemote (w := { w with board := turn.1, store }) owned moves
      simp only [flow, takenBy, held, takings, logAppend, logOwn] at before afterwards ⊢
      rw [before, afterwards, List.append_assoc, List.append_assoc, ← List.append_assoc turn.2.2.tick.taken,
        delivery.kept, List.append_assoc]
    · simp only [flow, takenBy, held, others own, takings, logAppend, logOther (Ne.symm own), List.append_nil,
        Store.actions, delivery.out.others other own]
  · intro other found get
    have known : store.hasArtist other = w.store.hasArtist other := by
      simp only [Store.hasArtist, delivery.out.artists]
    by_cases own : other = Store.artistId (n + 1)
    · subst own
      cases owned.symm.trans get
      exact ⟨known.trans registered, left, moves⟩
    · obtain ⟨registered, buffer, remote⟩ := sound.staffed other found ((others own).symm.trans get)
      exact ⟨known.trans registered, buffer, remote⟩

theorem advanceSound {w : World} (reading : w.reader.Addresses w.host) (sound : w.Sound) (now : Duration) :
    (w.operate (.advance now)).Sound := by
  have between : ∃ store, w.Between (w.board.advance now w.network).board (w.board.advance now w.network).link
      (w.board.advance now w.network).turns store := by
    refine Board.advanceInduct (P := fun b link turns => ∃ store, w.Between b link turns store) ?_ ?_
    · refine ⟨w.store, rfl, fun _ => rfl, quietSound sound ⟨rfl, rfl, rfl, fun id => ?_⟩ sound.staffed⟩
      simp only [flow, takenBy, takings, List.flatMap_nil, List.append_nil]
      rfl
    · rintro b link turns id actor here _ ⟨store, rfl, silent, current⟩
      obtain ⟨later, link, still, after⟩ :=
        turnSound (w := { w with board := b, store, taken := w.taken ++ takings turns }) reading current now here
      refine ⟨later, link, fun unreachable => (still unreachable).trans (silent unreachable), ?_⟩
      rw [takingsAppend, ← List.append_assoc]
      exact after
  obtain ⟨store, link, silent, after⟩ := between
  have kept : w.storeAfter (w.board.advance now w.network).link = store := by
    rw [link]
    cases reachable : w.reachable with
    | true => rfl
    | false => exact (silent reachable).symm
  simp only [operate, Board.perform, kept]
  exact after

theorem localSound {w : World} (sound : w.Sound) {act : Board.Act}
    (link : (w.board.perform w.network act).link = w.network)
    (turns : (w.board.perform w.network act).turns = [])
    (actors : ∀ id, (w.board.perform w.network act).board.actors.get? id = w.board.actors.get? id) :
    (w.operate act).Sound := by
  have kept := storeAfterSelf w
  have same : w.operate act = { w with board := (w.board.perform w.network act).board } := by
    simp only [operate, link, turns, kept, takings, List.flatMap_nil, List.append_nil]
  rw [same]
  refine quietSound sound ⟨rfl, rfl, rfl, fun id => ?_⟩ fun id actor get => ?_
  · simp only [flow, takenBy, held, actors id]
  · rw [actors id] at get
    exact sound.staffed id actor get

theorem pollOffers {w : World} (reading : w.reader.Addresses w.host) :
    ∃ newcomers : List Newcomer, (Source.remote w.reader).poll w.network = (newcomers, .remote w.reader, w.network) ∧
      ∀ newcomer ∈ newcomers, w.store.hasArtist newcomer.id = true ∧
        newcomer.moves = .remote ⟨w.reader, newcomer.id, []⟩ := by
  cases reachable : w.reachable with
  | true =>
    refine ⟨w.store.artists.map fun artist => ⟨artist.id, .remote ⟨w.reader, artist.id, []⟩⟩, ?_, ?_⟩
    · simp only [Source.poll, networkUp reachable, Client.artistsUp reading]
    · intro newcomer mem
      obtain ⟨artist, among, rfl⟩ := List.mem_map.mp mem
      exact ⟨(Store.hasArtistIff w.store artist.id).mpr ⟨artist, among, rfl⟩, rfl⟩
  | false =>
    refine ⟨[], ?_, nofun⟩
    simp only [Source.poll, networkDown reachable, Client.artists, Client.getDown]

theorem pollSound {w : World} (reading : w.reader.Addresses w.host) (sound : w.Sound) (now : Duration) :
    (w.step (.poll now)).Sound := by
  obtain ⟨newcomers, answer, artists⟩ := pollOffers reading
  have same : w.step (.poll now) = { w with board := (w.board.connect now newcomers).1 } := by
    simp only [step, answer, storeAfterSelf, operate, Board.perform, takings, List.flatMap_nil, List.append_nil]
  rw [same]
  refine quietSound sound ⟨rfl, rfl, rfl, fun id => ?_⟩ fun id actor get => ?_
  · rcases Board.connectGet w.board now newcomers id with kept | ⟨absent, newcomer, mem, rfl, actor, added, moves⟩
    · simp only [flow, takenBy, held, kept]
    · have empty := heldRemote (w := { w with board := (w.board.connect now newcomers).1 }) added
        (moves.trans (artists newcomer mem).2)
      have before : w.held newcomer.id = [] := by simp only [held, absent, Option.map_none, Option.getD_none]
      simp only [flow, takenBy, empty, before]
  · rcases Board.connectGet w.board now newcomers id with kept | ⟨_, newcomer, mem, rfl, newActor, added, moves⟩
    · rw [kept] at get
      exact sound.staffed id actor get
    · cases added.symm.trans get
      obtain ⟨registered, remote⟩ := artists newcomer mem
      exact ⟨registered, [], moves.trans remote⟩

theorem actionsPush (s : Store) (id description other : String) :
    (s.push id description).2.actions other =
      s.actions other ++ if other = id then [description].filterMap Line.action? else [] := by
  rw [Store.actions, Store.pendingPush, List.filterMap_append]
  congr 1
  split <;> rfl

theorem flowPush (w : World) (s : Store) (id description other : String) :
    { w with store := (s.push id description).2 }.flow other =
      { w with store := s }.flow other ++ if other = id then [description].filterMap Line.action? else [] := by
  simp only [flow, takenBy, held, actionsPush, List.append_assoc]

/- A new artist has a new id, so there is nothing yet of its actions but the one that says its name. -/
theorem createSound {w : World} (sound : w.Sound) (name : String) :
    { w with store := (w.store.create name).2 }.Sound := by
  have fresh := Store.nextIsNew sound.numbered
  have artists : (w.store.create name).2.artists =
      w.store.artists ++ [⟨Store.artistId (w.store.artistCount + 1), name⟩] := rfl
  have known (id : String) := Store.hasArtistCreate w.store name id
  have flows (id : String) : { w with store := (w.store.create name).2 }.flow id = w.flow id ++
      if id = Store.artistId (w.store.artistCount + 1) then ["say " ++ name].filterMap Line.action? else [] :=
    flowPush w { w.store with
      artistCount := w.store.artistCount + 1
      artists := w.store.artists ++ [⟨Store.artistId (w.store.artistCount + 1), name⟩] } _ _ id
  constructor
  · exact Store.createNumbered sound.numbered name
  · intro id actor get
    obtain ⟨registered, remote⟩ := sound.staffed id actor get
    refine ⟨?_, remote⟩
    rw [known, registered, Bool.true_or]
  · intro id stranger
    rw [known, Bool.or_eq_false_iff, beq_eq_false_iff_ne] at stranger
    rw [flows, if_neg (Ne.symm stranger.2), List.append_nil]
    exact sound.unknown id stranger.1
  · intro artist (mem : artist ∈ (w.store.create name).2.artists)
    rw [artists] at mem
    rw [flows]
    rcases List.mem_append.mp mem with old | new
    · have other : artist.id ≠ Store.artistId (w.store.artistCount + 1) := by
        intro same
        have registered := (Store.hasArtistIff w.store artist.id).mpr ⟨artist, old, rfl⟩
        rw [same, fresh] at registered
        contradiction
      rw [if_neg other, List.append_nil]
      exact sound.conserved artist old
    · rw [List.mem_singleton.mp new, if_pos rfl, (sound.unknown _ fresh).1, List.nil_append]
      have unposted : { w with store := (w.store.create name).2 }.postedTo
          (Store.artistId (w.store.artistCount + 1)) = [] := (sound.unknown _ fresh).2
      rw [unposted]

theorem postSound {w : World} (sound : w.Sound) {id : String} (registered : w.store.hasArtist id = true)
    (description : String) :
    { w with store := (w.store.push id description).2, posted := w.posted ++ [(id, description)] }.Sound := by
  have flows (other : String) :
      { w with store := (w.store.push id description).2, posted := w.posted ++ [(id, description)] }.flow other =
        w.flow other ++ if other = id then [description].filterMap Line.action? else [] :=
    flowPush w w.store id description other
  have posts (other : String) :
      { w with store := (w.store.push id description).2, posted := w.posted ++ [(id, description)] }.postedTo other =
        w.postedTo other ++ if other = id then [description] else [] := by
    simp only [postedTo, logAppend]
    by_cases same : other = id
    · subst same
      rw [if_pos rfl]
      exact congrArg _ (logOwn [description])
    · rw [if_neg same]
      exact congrArg _ (logOther (Ne.symm same) [description])
  constructor
  · exact sound.numbered
  · exact sound.staffed
  · intro other stranger
    have unlike : other ≠ id := by
      rintro rfl
      have both := stranger.symm.trans registered
      contradiction
    rw [flows, posts, if_neg unlike, if_neg unlike, List.append_nil, List.append_nil]
    exact sound.unknown other stranger
  · intro artist mem
    have before := sound.conserved artist mem
    rw [flows, posts, before]
    by_cases same : artist.id = id
    · rw [if_pos same, if_pos same, ← List.cons_append, List.filterMap_append]
    · rw [if_neg same, if_neg same, List.append_nil, List.append_nil]

theorem stepSound {w : World} (posting : w.poster.Addresses w.host) (reading : w.reader.Addresses w.host)
    (sound : w.Sound) (event : Event) : (w.step event).Sound := by
  cases event with
  | create name =>
    cases reachable : w.reachable with
    | true =>
      by_cases tooLong : Service.bodyLimit < (NewArtist.toJson ⟨name⟩).toBytes.size
      · simp only [step, networkUp reachable, Client.createTooLong posting tooLong, storeAfter, Option.getD_some]
        exact sound
      · simp only [step, networkUp reachable, Client.createUp posting (Nat.not_lt.mp tooLong), storeAfter,
          Option.getD_some]
        exact createSound sound name
    | false =>
      simp only [step, networkDown reachable, Client.createArtist,
        Client.postDown, storeAfter, Option.getD_none]
      exact sound
  | post number description =>
    cases reachable : w.reachable with
    | true =>
      by_cases refused : Service.bodyLimit < (NewMove.toJson ⟨description⟩).toBytes.size ∨
          w.store.hasArtist (Store.artistId number) = false
      · simp only [step, networkUp reachable, Client.addRefused posting number description refused, storeAfter,
          Option.getD_some]
        exact sound
      · obtain ⟨fits, known⟩ := not_or.mp refused
        have registered := (Bool.not_eq_false _).mp known
        simp only [step, networkUp reachable, Client.addUp posting number (Nat.not_lt.mp fits) registered, storeAfter,
          Option.getD_some]
        exact postSound sound registered description
    | false =>
      simp only [step, networkDown reachable, Client.addMove,
        Client.postDown, storeAfter, Option.getD_none]
      exact sound
  | poll now => exact pollSound reading sound now
  | advance now => exact advanceSound reading sound now
  | resize width height => exact localSound sound rfl rfl fun _ => rfl
  | signal signal => exact localSound sound rfl rfl fun _ => rfl
  | toggleHold => exact localSound sound rfl rfl fun _ => rfl
  | reach reachable => exact quietSound sound ⟨rfl, rfl, rfl, fun _ => rfl⟩ sound.staffed

theorem operateSetting (w : World) (act : Board.Act) :
    (w.operate act).host = w.host ∧ (w.operate act).poster = w.poster ∧ (w.operate act).reader = w.reader :=
  ⟨rfl, rfl, rfl⟩

theorem stepSetting (w : World) (event : Event) :
    (w.step event).host = w.host ∧ (w.step event).poster = w.poster ∧ (w.step event).reader = w.reader := by
  cases event with
  | create _ | reach _ =>
    rw [step]
    exact ⟨rfl, rfl, rfl⟩
  | post number description =>
    rw [step]
    split <;> exact ⟨rfl, rfl, rfl⟩
  | poll now =>
    rw [step]
    rcases (Source.remote w.reader).poll w.network with ⟨newcomers, source, network⟩
    exact operateSetting _ _
  | advance _ | resize _ _ | signal _ | toggleHold =>
    rw [step]
    exact operateSetting w _

theorem runSound {w : World} (posting : w.poster.Addresses w.host) (reading : w.reader.Addresses w.host)
    (sound : w.Sound) (events : List Event) : (w.run events).Sound := by
  induction events generalizing w with
  | nil => exact sound
  | cons event events ih =>
    obtain ⟨host, poster, reader⟩ := stepSetting w event
    apply ih
    · rw [host, poster]
      exact posting
    · rw [host, reader]
      exact reading
    · exact stepSound posting reading sound event

end World
end TurtleBoard

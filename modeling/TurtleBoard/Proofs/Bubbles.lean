import Mathlib.Data.List.Nodup
import TurtleBoard.Proofs.Resize
import TurtleBoard.Proofs.Runs

/-! The bubbles of a board along a run. Every bubble has a number of its own, numbers go up, and what is on the canvas
is what the board remembers. A bubble goes in the first later advance that has reached its last instant, before anyone
is ticked, and in no other. -/
namespace TurtleBoard

namespace Call

def shown? : Call → Option Nat
  | .show number _ _ => some number
  | _ => none

def removed? : Call → Option Nat
  | .remove number => some number
  | _ => none

end Call

def shownIn (calls : List Call) : List Nat := calls.filterMap Call.shown?

def removedIn (calls : List Call) : List Nat := calls.filterMap Call.removed?

@[simp] theorem shownAppend (before later : List Call) : shownIn (before ++ later) = shownIn before ++ shownIn later :=
  List.filterMap_append

@[simp] theorem removedAppend (before later : List Call) :
    removedIn (before ++ later) = removedIn before ++ removedIn later := List.filterMap_append

@[simp] theorem shownRemoves (numbers : List Nat) : shownIn (numbers.map .remove) = [] := by
  simp [shownIn, Call.shown?]

@[simp] theorem removedRemoves (numbers : List Nat) : removedIn (numbers.map .remove) = numbers := by
  simp [removedIn, List.filterMap_map, Function.comp_def, Call.removed?]

namespace Canvas

def hasBubble (c : Canvas) (number : Nat) : Bool := (c.bubbles.get? number).isSome

theorem applyBubble (c : Canvas) (call : Call) (number : Nat) :
    (c.apply call).hasBubble number = true ↔
      call.shown? = some number ∨ c.hasBubble number = true ∧ call.removed? ≠ some number := by
  cases call with
  | «show» other position text =>
    by_cases own : other = number
    · subst own
      simp [apply, showBubble, hasBubble, Call.shown?]
    · simp [apply, showBubble, hasBubble, OrderedMap.getInsertOther _ _ own, Call.shown?, Call.removed?, own]
  | remove other =>
    by_cases own : other = number
    · subst own
      simp [apply, remove, hasBubble, OrderedMap.getErase, Call.shown?, Call.removed?]
    · simp [apply, remove, hasBubble, OrderedMap.getErase, Ne.symm own, Call.shown?, Call.removed?, own]
  | _ => simp [apply, resize, drawLine, spawn, place, reset, hasBubble, Call.shown?, Call.removed?]

theorem applyAllBubble (c : Canvas) {calls : List Call} {number : Nat}
    (apart : number ∈ shownIn calls → number ∉ removedIn calls) :
    (c.applyAll calls).hasBubble number = true ↔
      number ∈ shownIn calls ∨ c.hasBubble number = true ∧ number ∉ removedIn calls := by
  induction calls generalizing c with
  | nil => simp [applyAll, shownIn, removedIn]
  | cons call calls ih =>
    have shows : number ∈ shownIn (call :: calls) ↔
        call.shown? = some number ∨ number ∈ shownIn calls := by simp [shownIn]
    have removes : number ∈ removedIn (call :: calls) ↔
        call.removed? = some number ∨ number ∈ removedIn calls := by simp [removedIn]
    rw [shows, removes] at apart
    have later := ih (c.apply call) fun shown removed => apart (.inr shown) (.inr removed)
    rw [applyBubble] at later
    change ((c.apply call).applyAll calls).hasBubble number = true ↔ _
    rw [shows, removes, later]
    grind

end Canvas

namespace Board
variable {ω : Type} [Link ω]

structure Adds (now : Duration) (b : Board) (calls : List Call) (after : Board) (fresh : List Bubble) : Prop where
  config : after.config = b.config
  bubbles : after.bubbles = b.bubbles ++ fresh
  next : after.nextBubble = b.nextBubble + fresh.length
  numbers : fresh.map (·.number) = List.range' b.nextBubble fresh.length
  lasts : ∀ bubble ∈ fresh, bubble.expiresAt = now + b.config.bubbleTtl
  shown : shownIn calls = fresh.map (·.number)
  silent : removedIn calls = []

theorem Adds.none {now : Duration} {b after : Board} {calls : List Call} (config : after.config = b.config)
    (bubbles : after.bubbles = b.bubbles) (next : after.nextBubble = b.nextBubble) (shown : shownIn calls = [])
    (silent : removedIn calls = []) : Adds now b calls after [] :=
  ⟨config, bubbles.trans (List.append_nil _).symm, next, rfl, (fun _ mem => nomatch mem), shown, silent⟩

theorem Adds.trans {now : Duration} {b middle after : Board} {calls later : List Call} {fresh more : List Bubble}
    (first : Adds now b calls middle fresh) (second : Adds now middle later after more) :
    Adds now b (calls ++ later) after (fresh ++ more) where
  config := second.config.trans first.config
  bubbles := by rw [second.bubbles, first.bubbles, List.append_assoc]
  next := by rw [second.next, first.next, List.length_append, Nat.add_assoc]
  numbers := by
    rw [List.map_append, first.numbers, second.numbers, first.next, List.length_append, List.range'_append_1]
  lasts := by
    intro bubble mem
    rcases List.mem_append.mp mem with mem | mem
    · exact first.lasts bubble mem
    · rw [second.lasts bubble mem, first.config]
  shown := by rw [shownAppend, first.shown, second.shown, List.map_append]
  silent := by rw [removedAppend, first.silent, second.silent, List.append_nil]

theorem showEffectsAdds (b : Board) (now : Duration) (id : String) (offset : Point Float)
    (effects : List (Effect Float)) :
    ∃ fresh, Adds now b (b.showEffects now id offset effects).2 (b.showEffects now id offset effects).1 fresh := by
  induction effects generalizing b with
  | nil => exact ⟨[], .none rfl rfl rfl rfl rfl⟩
  | cons effect rest ih =>
    have quiet {call : Call} (shows : call.shown? = none) (removes : call.removed? = none) : Adds now b [call] b [] :=
      .none rfl rfl rfl (by simp [shownIn, shows]) (by simp [removedIn, removes])
    cases effect with
    | trail start finish stroke =>
      obtain ⟨fresh, later⟩ := ih b
      exact ⟨[] ++ fresh, (quiet rfl rfl).trans later⟩
    | pose position angle walkFrame =>
      obtain ⟨fresh, later⟩ := ih b
      exact ⟨[] ++ fresh, (quiet rfl rfl).trans later⟩
    | say position text =>
      let bubble : Bubble := ⟨b.nextBubble, now + b.config.bubbleTtl⟩
      let middle := { b with nextBubble := b.nextBubble + 1, bubbles := b.bubbles ++ [bubble] }
      have said : Adds now b [.show bubble.number (b.canvasPoint offset position) text] middle [bubble] :=
        ⟨rfl, rfl, rfl, rfl, fun _ mem => by rw [List.mem_singleton.mp mem], rfl, rfl⟩
      obtain ⟨fresh, later⟩ := ih middle
      exact ⟨[bubble] ++ fresh, said.trans later⟩

theorem turnAdds (b : Board) (now : Duration) (id : String) (actor : Actor) (link : ω) :
    ∃ fresh, Adds now b (b.turn now id actor link).2.2.calls (b.turn now id actor link).1 fresh := by
  obtain ⟨fresh, adds⟩ := showEffectsAdds { b with pace := (b.tickOf now actor link).pace } now id actor.offset
    (b.tickOf now actor link).effects
  exact ⟨fresh, adds.config, adds.bubbles, adds.next, adds.numbers, adds.lasts, adds.shown, adds.silent⟩

theorem advanceAdds (b : Board) (now : Duration) (link : ω) :
    ∃ fresh, Adds now (b.expire now) ((b.advance now link).turns.flatMap (·.calls)) (b.advance now link).board
      fresh := by
  refine advanceInduct (P := fun (after : Board) (_ : ω) (done : List (Turn ω)) =>
    ∃ fresh, Adds now (b.expire now) (done.flatMap (·.calls)) after fresh) ⟨[], .none rfl rfl rfl rfl rfl⟩ ?_
  rintro after link done id actor _ _ ⟨fresh, adds⟩
  obtain ⟨more, later⟩ := turnAdds after now id actor link
  refine ⟨fresh ++ more, ?_⟩
  rw [List.flatMap_append, List.flatMap_singleton]
  exact adds.trans later

def Act.reaches (due : Duration) : Act → Bool
  | .advance now => decide (due ≤ now)
  | _ => false

/- All that an act does to the bubbles. Those whose instant it reaches go, and fresh ones come. -/
structure Turnover (b : Board) (act : Act) (o : Outcome ω) (fresh : List Bubble) : Prop where
  config : o.board.config = b.config
  bubbles : o.board.bubbles = b.bubbles.filter (fun bubble => !act.reaches bubble.expiresAt) ++ fresh
  removed : removedIn o.calls = (b.bubbles.filter fun bubble => act.reaches bubble.expiresAt).map (·.number)
  shown : shownIn o.calls = fresh.map (·.number)
  next : o.board.nextBubble = b.nextBubble + fresh.length
  numbers : fresh.map (·.number) = List.range' b.nextBubble fresh.length
  lasts : ∀ bubble ∈ fresh, ∃ now, act = .advance now ∧ bubble.expiresAt = now + b.config.bubbleTtl

omit [Link ω] in
theorem Turnover.none {b : Board} {act : Act} {o : Outcome ω} (idle : ∀ due, act.reaches due = false)
    (config : o.board.config = b.config) (bubbles : o.board.bubbles = b.bubbles)
    (next : o.board.nextBubble = b.nextBubble)
    (quiet : ∀ call ∈ o.calls, call.shown? = .none ∧ call.removed? = .none) : Turnover b act o [] := by
  have shown : shownIn o.calls = [] := List.filterMap_eq_nil_iff.mpr fun call mem => (quiet call mem).1
  have removed : removedIn o.calls = [] := List.filterMap_eq_nil_iff.mpr fun call mem => (quiet call mem).2
  refine ⟨config, ?_, ?_, shown, next, rfl, fun _ mem => nomatch mem⟩
  · rw [bubbles, List.append_nil, List.filter_eq_self.mpr]
    intro bubble _
    rw [idle, Bool.not_false]
  · rw [removed, List.filter_eq_nil_iff.mpr, List.map_nil]
    intro bubble _
    rw [idle]
    exact Bool.false_ne_true

theorem advanceRemoved (b : Board) (now : Duration) (link : ω) :
    removedIn (b.advance now link).calls = (b.advance now link).expired ∧
      removedIn ((b.advance now link).turns.flatMap (·.calls)) = [] := by
  obtain ⟨fresh, adds⟩ := advanceAdds b now link
  rw [Advance.calls, removedAppend, removedRemoves, adds.silent, List.append_nil]
  exact ⟨rfl, rfl⟩

theorem advanceTurnover (b : Board) (now : Duration) (link : ω) :
    ∃ fresh, Turnover b (.advance now) (b.perform link (.advance now)) fresh := by
  obtain ⟨fresh, adds⟩ := advanceAdds b now link
  refine ⟨fresh, adds.config, ?_, ?_, ?_, adds.next, adds.numbers, ?_⟩
  · have bubbles := adds.bubbles
    rw [expire, List.partition_eq_filter_filter] at bubbles
    exact bubbles
  · refine (advanceRemoved b now link).1.trans ?_
    simp only [advance, List.partition_eq_filter_filter, Act.reaches]
  · change shownIn (b.advance now link).calls = _
    rw [Advance.calls, shownAppend, shownRemoves, adds.shown, List.nil_append]
  · exact fun bubble mem => ⟨now, rfl, adds.lasts bubble mem⟩

theorem removesThenTurns (b : Board) (now : Duration) (link : ω) :
    let o := b.perform link (.advance now)
    o.calls = (removedIn o.calls).map .remove ++ o.turns.flatMap (·.calls) ∧
      ∀ turn ∈ o.turns, removedIn turn.calls = [] := by
  obtain ⟨expired, silent⟩ := advanceRemoved b now link
  constructor
  · change (b.advance now link).calls = (removedIn (b.advance now link).calls).map .remove ++ _
    rw [expired]
    rfl
  · intro turn mem
    rw [removedIn, List.filterMap_flatMap, List.flatMap_eq_nil_iff] at silent
    exact silent turn mem

theorem connectTurnover (b : Board) (now : Duration) (newcomers : List Newcomer) (link : ω) :
    Turnover b (.connect now newcomers) (b.perform link (.connect now newcomers)) [] := by
  obtain ⟨config, bubbles, next, quiet⟩ := connectInduct (P := fun after done => after.config = b.config ∧
    after.bubbles = b.bubbles ∧ after.nextBubble = b.nextBubble ∧
      ∀ call ∈ done, call.shown? = .none ∧ call.removed? = .none)
    [] now newcomers ⟨rfl, rfl, rfl, fun _ mem => nomatch mem⟩ (by
      rintro after done newcomer _ ⟨config, bubbles, next, quiet⟩
      refine ⟨config, bubbles, next, fun call mem => ?_⟩
      rcases List.mem_append.mp mem with mem | mem
      · exact quiet call mem
      · simp only [add, List.mem_cons, List.not_mem_nil, or_false] at mem
        rcases mem with rfl | rfl <;> exact ⟨rfl, rfl⟩)
  exact .none (fun _ => rfl) config bubbles next quiet

theorem resizeTurnover (b : Board) (width height : Float) (link : ω) :
    Turnover b (.resize width height) (b.perform link (.resize width height)) [] := by
  refine .none (fun _ => rfl) rfl rfl rfl fun call mem => ?_
  simp only [perform, resize, ruling, List.mem_cons, List.mem_append, List.mem_map] at mem
  rcases mem with rfl | ⟨_, _, rfl⟩ | ⟨_, _, rfl⟩ <;> exact ⟨rfl, rfl⟩

theorem performTurnover (b : Board) (act : Act) (link : ω) : ∃ fresh, Turnover b act (b.perform link act) fresh := by
  cases act with
  | connect now newcomers => exact ⟨[], connectTurnover b now newcomers link⟩
  | advance now => exact advanceTurnover b now link
  | resize width height => exact ⟨[], resizeTurnover b width height link⟩
  | signal signal => exact ⟨[], .none (fun _ => rfl) rfl rfl rfl fun _ mem => nomatch mem⟩
  | toggleHold => exact ⟨[], .none (fun _ => rfl) rfl rfl rfl fun _ mem => nomatch mem⟩

def bubbleNumbers (b : Board) : List Nat := b.bubbles.map (·.number)

structure Tidy (b : Board) : Prop where
  sorted : b.bubbleNumbers.Pairwise (· < ·)
  below : ∀ number ∈ b.bubbleNumbers, number < b.nextBubble

section
variable {b : Board} {act : Act} {o : Outcome ω} {fresh : List Bubble}
omit [Link ω]

theorem Turnover.memFresh (turnover : Turnover b act o fresh) {number : Nat} :
    number ∈ shownIn o.calls ↔ b.nextBubble ≤ number ∧ number < o.board.nextBubble := by
  rw [turnover.shown, turnover.numbers, turnover.next, List.mem_range'_1]

theorem Turnover.memRemoved (turnover : Turnover b act o fresh) {number : Nat} (mem : number ∈ removedIn o.calls) :
    number ∈ b.bubbleNumbers := by
  rw [turnover.removed] at mem
  obtain ⟨bubble, among, rfl⟩ := List.mem_map.mp mem
  exact List.mem_map_of_mem (List.mem_filter.mp among).1

theorem Tidy.sameNumber (tidy : b.Tidy) {one other : Bubble} (first : one ∈ b.bubbles) (second : other ∈ b.bubbles)
    (same : one.number = other.number) : one = other :=
  List.inj_on_of_nodup_map (tidy.sorted.imp Nat.ne_of_lt) first second same

theorem Turnover.removedReached (turnover : Turnover b act o fresh) (tidy : b.Tidy) {bubble : Bubble}
    (among : bubble ∈ b.bubbles) : bubble.number ∈ removedIn o.calls ↔ act.reaches bubble.expiresAt = true := by
  rw [turnover.removed]
  constructor
  · intro removed
    obtain ⟨other, mem, same⟩ := List.mem_map.mp removed
    obtain ⟨second, reached⟩ := List.mem_filter.mp mem
    rwa [tidy.sameNumber second among same] at reached
  · exact fun reached => List.mem_map_of_mem (List.mem_filter.mpr ⟨among, reached⟩)

theorem Turnover.stays (turnover : Turnover b act o fresh) {bubble : Bubble} (among : bubble ∈ b.bubbles)
    (early : act.reaches bubble.expiresAt = false) : bubble ∈ o.board.bubbles := by
  rw [turnover.bubbles]
  exact List.mem_append_left _ (List.mem_filter.mpr ⟨among, by rw [early, Bool.not_false]⟩)

theorem Turnover.memAfter (turnover : Turnover b act o fresh) (tidy : b.Tidy) {number : Nat} :
    number ∈ o.board.bubbleNumbers ↔
      number ∈ shownIn o.calls ∨ number ∈ b.bubbleNumbers ∧ number ∉ removedIn o.calls := by
  rw [turnover.shown]
  constructor
  · intro stands
    obtain ⟨bubble, mem, rfl⟩ := List.mem_map.mp stands
    rw [turnover.bubbles] at mem
    rcases List.mem_append.mp mem with kept | new
    · obtain ⟨among, early⟩ := List.mem_filter.mp kept
      refine .inr ⟨List.mem_map_of_mem among, fun removed => ?_⟩
      rw [(turnover.removedReached tidy among).mp removed] at early
      contradiction
    · exact .inl (List.mem_map_of_mem new)
  · rintro (shown | ⟨stood, remains⟩)
    · rw [bubbleNumbers, turnover.bubbles, List.map_append]
      exact List.mem_append_right _ shown
    · obtain ⟨bubble, among, rfl⟩ := List.mem_map.mp stood
      rw [turnover.removedReached tidy among, Bool.not_eq_true] at remains
      exact List.mem_map_of_mem (turnover.stays among remains)

theorem Turnover.tidy (turnover : Turnover b act o fresh) (tidy : b.Tidy) : o.board.Tidy := by
  have kept : List.Sublist ((b.bubbles.filter fun bubble => !act.reaches bubble.expiresAt).map (·.number))
      b.bubbleNumbers := List.filter_sublist.map _
  constructor
  · rw [bubbleNumbers, turnover.bubbles, List.map_append, List.pairwise_append]
    refine ⟨tidy.sorted.sublist kept, turnover.numbers ▸ List.pairwise_lt_range', ?_⟩
    intro one first other second
    rw [turnover.numbers, List.mem_range'_1] at second
    exact Nat.lt_of_lt_of_le (tidy.below one (kept.mem first)) second.1
  · intro number mem
    rcases (turnover.memAfter tidy).mp mem with shown | ⟨stood, _⟩
    · exact (turnover.memFresh.mp shown).2
    · rw [turnover.next]
      exact Nat.lt_add_right _ (tidy.below number stood)

theorem Turnover.removedOnce (turnover : Turnover b act o fresh) (tidy : b.Tidy) {bubble : Bubble}
    (among : bubble ∈ b.bubbles) :
    (removedIn o.calls).count bubble.number = if act.reaches bubble.expiresAt then 1 else 0 := by
  have distinct : (removedIn o.calls).Nodup := by
    rw [turnover.removed]
    exact (tidy.sorted.imp Nat.ne_of_lt).sublist (List.filter_sublist.map _)
  split
  · rename_i reached
    exact List.count_eq_one_of_mem distinct ((turnover.removedReached tidy among).mpr reached)
  · rename_i early
    exact List.count_eq_zero_of_not_mem (mt (turnover.removedReached tidy among).mp early)

end

theorem goneForGood {b : Board} (tidy : b.Tidy) {number : Nat} (used : number < b.nextBubble)
    (gone : number ∉ b.bubbleNumbers) (acts : List (Act × ω)) :
    ∀ d ∈ b.deeds acts, number ∉ removedIn d.calls := by
  induction acts generalizing b with
  | nil => exact fun _ mem => nomatch mem
  | cons entry acts ih =>
    obtain ⟨act, link⟩ := entry
    obtain ⟨fresh, turnover⟩ := performTurnover b act link
    intro d mem
    rcases List.mem_cons.mp mem with rfl | mem
    · exact fun removed => gone (turnover.memRemoved removed)
    · refine ih (turnover.tidy tidy) ?_ ?_ d mem
      · rw [turnover.next]
        exact Nat.lt_add_right _ used
      · intro stands
        rcases (turnover.memAfter tidy).mp stands with shown | ⟨stood, _⟩
        · exact Nat.not_lt.mpr (turnover.memFresh.mp shown).1 used
        · exact gone stood

def Deed.isFirstAt (due : Duration) (waiting : List (Deed ω)) (d : Deed ω) : Bool :=
  d.act.reaches due && waiting.all fun earlier => !earlier.act.reaches due

theorem removedByFirst {b : Board} (tidy : b.Tidy) {bubble : Bubble} (among : bubble ∈ b.bubbles)
    {acts : List (Act × ω)} {waiting later : List (Deed ω)} {d : Deed ω}
    (split : b.deeds acts = waiting ++ d :: later) :
    (removedIn d.calls).count bubble.number = if d.isFirstAt bubble.expiresAt waiting then 1 else 0 := by
  induction waiting generalizing b acts with
  | nil =>
    cases acts with
    | nil => contradiction
    | cons entry acts =>
      obtain ⟨rfl, _⟩ := List.cons.inj split
      obtain ⟨fresh, turnover⟩ := performTurnover b entry.1 entry.2
      have here : (b.deed entry.1 entry.2).isFirstAt bubble.expiresAt [] = entry.1.reaches bubble.expiresAt :=
        Bool.and_true _
      rw [here]
      exact turnover.removedOnce tidy among
  | cons first waiting ih =>
    cases acts with
    | nil => contradiction
    | cons entry acts =>
      obtain ⟨rfl, rest⟩ := List.cons.inj split
      obtain ⟨fresh, turnover⟩ := performTurnover b entry.1 entry.2
      have first : d.isFirstAt bubble.expiresAt (b.deed entry.1 entry.2 :: waiting) =
          (!entry.1.reaches bubble.expiresAt && d.isFirstAt bubble.expiresAt waiting) := Bool.and_left_comm ..
      rw [first]
      cases reached : entry.1.reaches bubble.expiresAt with
      | false => exact ih (turnover.tidy tidy) (turnover.stays among reached) rest
      | true =>
        -- It goes here, so that it is not there to be removed later.
        have used := tidy.below _ (List.mem_map_of_mem among)
        have gone : bubble.number ∉ (b.perform entry.2 entry.1).board.bubbleNumbers := by
          rw [turnover.memAfter tidy, turnover.memFresh, turnover.removedReached tidy among, reached]
          rintro (⟨fresh, _⟩ | ⟨_, stays⟩)
          · exact Nat.not_lt.mpr fresh used
          · exact stays rfl
        have handedOut := Nat.lt_of_lt_of_le used (turnover.next ▸ Nat.le_add_right _ _)
        have comes : d ∈ (b.perform entry.2 entry.1).board.deeds acts :=
          rest ▸ List.mem_append_right _ List.mem_cons_self
        exact List.count_eq_zero_of_not_mem (goneForGood (turnover.tidy tidy) handedOut gone acts d comes)

/- The books of a run: all numbers up to the next one have been shown in their order, no others have been removed, and
those that stand are on the canvas. -/
structure Books (config : Config) (canvas : Canvas) (b : Board) (calls : List Call) : Prop where
  config : b.config = config
  tidy : b.Tidy
  shown : shownIn calls = List.range b.nextBubble
  removed : ∀ number ∈ removedIn calls, number < b.nextBubble
  standing : ∀ number, number ∈ b.bubbleNumbers ↔ number ∈ shownIn calls ∧ number ∉ removedIn calls
  onCanvas : ∀ number, (canvas.applyAll calls).hasBubble number = true ↔ number ∈ b.bubbleNumbers

omit [Link ω] in
theorem Turnover.books {config : Config} {canvas : Canvas} {b : Board} {calls : List Call} {act : Act}
    {o : Outcome ω} {fresh : List Bubble} (books : Books config canvas b calls) (turnover : Turnover b act o fresh) :
    Books config canvas o.board (calls ++ o.calls) := by
  have handedOut : b.nextBubble ≤ o.board.nextBubble := turnover.next ▸ Nat.le_add_right _ _
  have old {number : Nat} (mem : number ∈ removedIn o.calls) : number < b.nextBubble :=
    books.tidy.below number (turnover.memRemoved mem)
  have apart {number : Nat} (shown : number ∈ shownIn o.calls) : number ∉ removedIn o.calls := fun removed =>
    Nat.not_lt.mpr (turnover.memFresh.mp shown).1 (old removed)
  refine ⟨turnover.config.trans books.config, turnover.tidy books.tidy, ?_, ?_, ?_, ?_⟩
  · rw [shownAppend, books.shown, turnover.shown, turnover.numbers, turnover.next, List.range_add,
      List.range'_eq_map_range]
  · intro number mem
    rw [removedAppend, List.mem_append] at mem
    exact Nat.lt_of_lt_of_le (mem.elim (books.removed number) old) handedOut
  · intro number
    rw [turnover.memAfter books.tidy, books.standing, shownAppend, removedAppend, List.mem_append, List.mem_append]
    have fresh : number ∈ shownIn o.calls → number ∉ removedIn calls := fun shown removed =>
      Nat.not_lt.mpr (turnover.memFresh.mp shown).1 (books.removed number removed)
    have := @apart number
    grind
  · intro number
    rw [Canvas.applyAllAppend, Canvas.applyAllBubble _ apart, books.onCanvas, turnover.memAfter books.tidy]

theorem runBooks (config : Config) (draws : Draws) (cols rows : Nat) (walkFrameSize : Int) (acts : List (Act × ω)) :
    Books config (.ofSize cols rows walkFrameSize) ((ofConfig config draws).after acts)
      (((ofConfig config draws).deeds acts).flatMap Deed.calls) := by
  refine runInduct
    (P := fun b done => Books config (.ofSize cols rows walkFrameSize) b (done.flatMap Deed.calls)) [] ?_ ?_
  · refine ⟨rfl, ⟨.nil, fun _ mem => nomatch mem⟩, rfl, (fun _ mem => nomatch mem), ?_, ?_⟩ <;> intro number
    · simp [bubbleNumbers, ofConfig, shownIn]
    · simp [bubbleNumbers, ofConfig, Canvas.applyAll, Canvas.hasBubble, Canvas.ofSize, OrderedMap.get?]
  · intro b done act link _ books
    obtain ⟨fresh, turnover⟩ := performTurnover b act link
    rw [List.flatMap_append, List.flatMap_singleton]
    exact turnover.books books

theorem shownThenRemoved (config : Config) (draws : Draws) {acts : List (Act × ω)} {before later : List (Deed ω)}
    {shower : Deed ω} (split : (ofConfig config draws).deeds acts = before ++ shower :: later) {number : Nat}
    (shown : number ∈ shownIn shower.calls) :
    ∃ now, shower.act = .advance now ∧ (∀ d ∈ before ++ [shower], number ∉ removedIn d.calls) ∧
      ∀ waiting d rest, later = waiting ++ d :: rest →
        (removedIn d.calls).count number = if d.isFirstAt (now + config.bubbleTtl) waiting then 1 else 0 := by
  obtain ⟨earlier, act, link, rest, _, rfl, rfl, rfl⟩ := deedsSplit split
  have books := runBooks config draws 0 0 0 earlier
  obtain ⟨fresh, turnover⟩ := performTurnover ((ofConfig config draws).after earlier) act link
  have new := (turnover.memFresh.mp shown).1
  have mem : number ∈ fresh.map (·.number) := turnover.shown ▸ shown
  obtain ⟨bubble, among, rfl⟩ := List.mem_map.mp mem
  obtain ⟨now, rfl, lasts⟩ := turnover.lasts bubble among
  rw [books.config] at lasts
  refine ⟨now, rfl, ?_, ?_⟩
  · intro d mem removed
    rcases List.mem_append.mp mem with mem | mem
    · obtain ⟨call, called, goes⟩ := List.mem_filterMap.mp removed
      have ever : bubble.number ∈ removedIn (((ofConfig config draws).deeds earlier).flatMap Deed.calls) :=
        List.mem_filterMap.mpr ⟨call, List.mem_flatMap.mpr ⟨d, mem, called⟩, goes⟩
      exact Nat.not_lt.mpr new (books.removed _ ever)
    · cases List.mem_singleton.mp mem
      exact Nat.not_lt.mpr new (books.tidy.below _ (turnover.memRemoved removed))
  · intro waiting d rest split
    have stands : bubble ∈ (((ofConfig config draws).after earlier).perform link (.advance now)).board.bubbles :=
      turnover.bubbles ▸ List.mem_append_right _ among
    rw [← lasts]
    exact removedByFirst (turnover.tidy books.tidy) stands split

theorem bubblesComeAndGo (config : Config) (draws : Draws) (cols rows : Nat) (walkFrameSize : Int)
    (acts : List (Act × ω)) :
    let b := (ofConfig config draws).after acts
    let run := (ofConfig config draws).deeds acts
    let calls := run.flatMap Deed.calls
    let canvas := (Canvas.ofSize cols rows walkFrameSize).applyAll calls
    (shownIn calls).Pairwise (· < ·) ∧ b.bubbleNumbers.Nodup ∧
      (∀ number, number ∈ b.bubbleNumbers ↔ number ∈ shownIn calls ∧ number ∉ removedIn calls) ∧
      (∀ number, canvas.hasBubble number = true ↔ number ∈ b.bubbleNumbers) ∧
      (∀ before shower after, run = before ++ shower :: after → ∀ number ∈ shownIn shower.calls,
        ∃ now, shower.act = .advance now ∧ (∀ d ∈ before ++ [shower], number ∉ removedIn d.calls) ∧
          ∀ waiting d later, after = waiting ++ d :: later →
            (removedIn d.calls).count number = if d.isFirstAt (now + config.bubbleTtl) waiting then 1 else 0) ∧
      (∀ d ∈ run, ∀ now, d.act = .advance now →
        d.calls = (removedIn d.calls).map .remove ++ d.outcome.turns.flatMap (·.calls) ∧
          ∀ turn ∈ d.outcome.turns, removedIn turn.calls = []) ∧
      (b.isSettled = true →
        canvas.bubbles.entries = [] ∧ ∀ actor ∈ b.actors.values, actor.stepper.phase = .finished) := by
  intro b run calls canvas
  have books := runBooks config draws cols rows walkFrameSize acts
  refine ⟨?_, books.tidy.sorted.imp Nat.ne_of_lt, books.standing, books.onCanvas, ?_, ?_, ?_⟩
  · rw [books.shown]
    exact List.pairwise_lt_range
  · exact fun before shower later split number shown => shownThenRemoved config draws split shown
  · intro d mem now advances
    obtain ⟨before, later, split⟩ := List.append_of_mem mem
    obtain ⟨earlier, act, link, rest, _, _, rfl, _⟩ := deedsSplit split
    obtain rfl : act = .advance now := advances
    exact removesThenTurns ((ofConfig config draws).after earlier) now link
  · intro settled
    obtain ⟨empty, finished⟩ := Bool.and_eq_true_iff.mp settled
    constructor
    · refine List.eq_nil_iff_forall_not_mem.mpr fun entry mem => ?_
      have here := (OrderedMap.memEntries canvas.bubbles entry.1 entry.2).mp mem
      have stands := (books.onCanvas entry.1).mp (Option.isSome_of_eq_some here)
      rw [bubbleNumbers, List.isEmpty_iff.mp empty] at stands
      contradiction
    · intro actor mem
      exact eq_of_beq (List.all_eq_true.mp finished actor mem)

end Board
end TurtleBoard

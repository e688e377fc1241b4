import Mathlib.Data.List.TakeWhile
import TurtleBoard.Client
import TurtleBoard.Proofs.Fields
import TurtleBoard.Proofs.RoundTrip
import TurtleBoard.Proofs.Store

/-! Where the requests of a client go. Segments in which nothing is taken for code, ends them or is dropped are sent
with what may not stand in a path coded, once dot segments are resolved, and the service takes the path apart into just
these; so a client with a plain address reaches the roster and the queue of every artist. -/
namespace TurtleBoard

namespace Text
variable {isSeparator : Char → Bool}

def path (segments : List (List Char)) : List Char := segments.flatMap ('/' :: ·)

theorem fieldsPath {first : List Char} {segments : List (List Char)} (separates : isSeparator '/' = true)
    (inside : ∀ segment ∈ first :: segments, ∀ c ∈ segment, isSeparator c = false) :
    fields isSeparator (first ++ path segments) = first :: segments := by
  have here := inside first List.mem_cons_self
  induction segments generalizing first with
  | nil =>
    rw [path, List.flatMap_nil, List.append_nil]
    exact fieldsLast here
  | cons second segments ih =>
    have later := fun segment mem => inside segment (List.mem_cons_of_mem _ mem)
    rw [path, List.flatMap_cons, List.cons_append, fieldsNext _ here separates]
    exact congrArg (first :: ·) (ih later (later second List.mem_cons_self))

end Text

namespace Percent

theorem encodePlain {isPlain : Char → Bool} {cs : List Char} (plain : ∀ c ∈ cs, isPlain c = true) :
    encode isPlain cs = cs := by
  induction cs with
  | nil => rfl
  | cons c cs ih =>
    have later := ih fun c mem => plain c (List.mem_cons_of_mem _ mem)
    rw [encode, List.flatMap_cons, encodeChar, if_pos (plain c List.mem_cons_self)]
    exact congrArg (c :: ·) later

theorem codeDigits : ∀ n < 16, Text.isHexDigit (Text.hexDigit n).toUpper = true ∧
    Text.hexValue (Text.hexDigit n).toUpper = n := by decide

theorem bytesCoded (bs : List UInt8) (rest : List Char) : bytes (bs.flatMap ofByte ++ rest) = bs ++ bytes rest := by
  induction bs with
  | nil => rfl
  | cons b bs ih =>
    have whole := b.toNat_lt
    obtain ⟨high, value⟩ := codeDigits (b.toNat / 16) (by omega)
    obtain ⟨low, left⟩ := codeDigits (b.toNat % 16) (by omega)
    have here : 16 * (b.toNat / 16) + b.toNat % 16 = b.toNat := Nat.div_add_mod ..
    rw [List.flatMap_cons, ofByte, List.append_assoc, List.cons_append, List.cons_append, List.cons_append,
      List.nil_append, bytes, high, low, value, left, here, ih, UInt8.ofNat_toNat]
    rfl

/- Where no percent sign is sent as it is, text comes to the same bytes before it is coded and after. -/
theorem bytesEncode {isPlain : Char → Bool} {cs : List Char} (uncoded : ∀ c ∈ cs, c ≠ '%') :
    bytes (encode isPlain cs) = cs.flatMap String.utf8EncodeChar := by
  induction cs with
  | nil => rfl
  | cons c cs ih =>
    have later := ih fun c mem => uncoded c (List.mem_cons_of_mem _ mem)
    have here := uncoded c List.mem_cons_self
    rw [encode, List.flatMap_cons, ← encode, encodeChar, List.flatMap_cons]
    split
    · rw [List.singleton_append, bytes, later]
      exact fun _ _ _ same => absurd same here
    · rw [bytesCoded, later]

theorem decodeEncode {isPlain : Char → Bool} {cs : List Char} (uncoded : ∀ c ∈ cs, c ≠ '%') :
    decode? (encode isPlain cs) = some (String.ofList cs) := by
  have coded : ByteArray.mk (cs.flatMap String.utf8EncodeChar).toArray = (String.ofList cs).toUTF8 := by
    rw [String.toUTF8_eq_toByteArray, String.toByteArray_ofList, List.utf8Encode]
    exact ByteArray.ext List.data_toByteArray.symm
  have all (cs : List Char) : (cs.map some).mapM id = some cs := by
    induction cs with
    | nil => rfl
    | cons c cs ih => simp only [List.map_cons, List.mapM_cons, ih, id]; rfl
  rw [decode?, bytesEncode uncoded, coded, Utf8.text?, Utf8.charsOfText, String.toList_ofList, all]
  rfl

theorem decodePlain {cs : List Char} (uncoded : ∀ c ∈ cs, c ≠ '%') : decode? cs = some (String.ofList cs) := by
  have decoded := @decodeEncode (fun _ => true) cs uncoded
  rwa [encodePlain fun _ _ => rfl] at decoded

theorem encodeChars {isPlain : Char → Bool} {cs : List Char} :
    ∀ c ∈ encode isPlain cs, c ∈ cs ∧ isPlain c = true ∨ c ∈ "%0123456789ABCDEF".toList := by
  have digits : ∀ n < 16, (Text.hexDigit n).toUpper ∈ "%0123456789ABCDEF".toList := by decide
  intro c mem
  obtain ⟨d, among, mem⟩ := List.mem_flatMap.mp mem
  rw [encodeChar] at mem
  split at mem
  · rename_i plain
    cases List.mem_singleton.mp mem
    exact .inl ⟨among, plain⟩
  · obtain ⟨b, -, mem⟩ := List.mem_flatMap.mp mem
    have whole := b.toNat_lt
    simp only [ofByte, List.mem_cons, List.not_mem_nil, or_false] at mem
    rcases mem with rfl | rfl | rfl
    · exact .inr List.mem_cons_self
    · exact .inr (digits _ (by omega))
    · exact .inr (digits _ (by omega))

end Percent

namespace Url

def isSafe (c : Char) : Bool :=
  !isSlash c && c != '%' && c != '?' && c != '#' && c != '\t' && c != '\n' && c != '\r'

structure SafeChar (c : Char) : Prop where
  slash : isSlash c = false
  uncoded : c ≠ '%'
  query : c ≠ '?'
  fragment : c ≠ '#'
  kept : (c != '\t' && c != '\n' && c != '\r') = true

theorem safeChar {segment : List Char} (safe : segment.all isSafe = true) {c : Char} (mem : c ∈ segment) :
    SafeChar c := by
  have here := List.all_eq_true.mp safe c mem
  simp only [isSafe, Bool.and_eq_true, Bool.not_eq_true', bne_iff_ne] at here
  obtain ⟨⟨⟨⟨⟨⟨slash, uncoded⟩, query⟩, fragment⟩, tab⟩, feed⟩, returns⟩ := here
  refine ⟨slash, uncoded, query, fragment, ?_⟩
  simp only [Bool.and_eq_true, bne_iff_ne]
  exact ⟨⟨tab, feed⟩, returns⟩

structure Level (segment : List Char) : Prop where
  uncoded : ∀ c ∈ segment, c ≠ '%'
  sameLevel : segment ≠ ['.']
  levelAbove : segment ≠ ['.', '.']

theorem dotsPlain {cs : List Char} (plain : ∀ c ∈ cs, c ≠ '%') : dots cs = cs := by
  induction cs with
  | nil => rfl
  | cons c cs ih =>
    have later := ih fun c mem => plain c (List.mem_cons_of_mem _ mem)
    have uncoded := plain c List.mem_cons_self
    rw [dots, later]
    exact fun _ _ same => absurd same uncoded

theorem resolveLevels {segments : List (List Char)} (levels : ∀ segment ∈ segments, Level segment)
    (before : List (List Char)) : resolve before segments = before.reverse ++ segments := by
  induction segments generalizing before with
  | nil => rw [resolve, List.append_nil]
  | cons segment segments ih =>
    have here := levels segment List.mem_cons_self
    have kept := dotsPlain here.uncoded
    cases segments with
    | nil =>
      simp only [resolve, kept, here.sameLevel, here.levelAbove, if_false, List.reverse_cons]
    | cons second segments =>
      have later := ih (fun segment mem => levels segment (List.mem_cons_of_mem _ mem)) (segment :: before)
      rw [resolve]
      · simp only [kept, here.sameLevel, here.levelAbove, if_false, later, List.reverse_cons, List.append_assoc,
          List.singleton_append]
      · exact nofun

def sentPath (segments : List (List Char)) : List Char :=
  Text.path ((resolve [] segments).map (Percent.encode Percent.isPlainInPath))

section
variable {first : List Char} {segments : List (List Char)}
  (safe : ∀ segment ∈ first :: segments, segment.all isSafe = true)
include safe

theorem pathOfSafe : pathOf (Text.path (first :: segments)) = sentPath (first :: segments) := by
  have inside : ∀ segment ∈ first :: segments, ∀ c ∈ segment, isSlash c = false :=
    fun segment mem c among => (safeChar (safe segment mem) among).slash
  have taken : Text.fields isSlash ((Text.path (first :: segments)).drop 1) = first :: segments :=
    Text.fieldsPath rfl inside
  rw [pathOf, taken, sentPath, Text.path, List.flatMap_map]

theorem pathSafe : ∀ c ∈ Text.path (first :: segments),
    (c != '?') = true ∧ (c != '#') = true ∧ (c != '\t' && c != '\n' && c != '\r') = true := by
  intro c mem
  obtain ⟨segment, among, mem⟩ := List.mem_flatMap.mp mem
  rcases List.mem_cons.mp mem with rfl | mem
  · decide
  · have here := safeChar (safe segment among) mem
    exact ⟨bne_iff_ne.mpr here.query, bne_iff_ne.mpr here.fragment, here.kept⟩

theorem targetOfSafe : targetOf (Text.path (first :: segments)) = sentPath (first :: segments) := by
  have inside := pathSafe safe
  have sent : (Text.path (first :: segments)).takeWhile (· != '#') = Text.path (first :: segments) :=
    List.takeWhile_eq_self_iff.mpr fun c mem => (inside c mem).2.1
  have all : (Text.path (first :: segments)).takeWhile (· != '?') = Text.path (first :: segments) :=
    List.takeWhile_eq_self_iff.mpr fun c mem => (inside c mem).1
  have noQuery : (Text.path (first :: segments)).dropWhile (· != '?') = [] :=
    List.dropWhile_eq_nil_iff.mpr fun c mem => (inside c mem).1
  rw [targetOf, sent, all, noQuery, pathOfSafe safe]
  exact List.append_nil _

end

def isHostPart (c : Char) : Bool := !isControl c && !isSlash c && c != '?' && c != '#' && c.toLower == c

structure PlainHost (host : List Char) : Prop where
  named : host ≠ []
  spelled : host.all isHostPart = true
  ported : withoutPort host = host

theorem PlainHost.plain {host : List Char} (plain : PlainHost host) :
    ∀ c ∈ host, isControl c = false ∧ isSlash c = false ∧ c ≠ '?' ∧ c ≠ '#' ∧ c.toLower = c := by
  intro c mem
  have here := List.all_eq_true.mp plain.spelled c mem
  simp only [isHostPart, Bool.and_eq_true, Bool.not_eq_true', bne_iff_ne, beq_iff_eq] at here
  exact ⟨here.1.1.1.1, here.1.1.1.2, here.1.1.2, here.1.2, here.2⟩

theorem cleanWhole {cs : List Char} (front : ∀ c ∈ cs.head?, isControl c = false)
    (back : ∀ c ∈ cs.getLast?, isControl c = false) (kept : ∀ c ∈ cs, (c != '\t' && c != '\n' && c != '\r') = true) :
    clean cs = cs := by
  have untouched {cs : List Char} (front : ∀ c ∈ cs.head?, isControl c = false) : cs.dropWhile isControl = cs := by
    cases cs with
    | nil => rfl
    | cons c cs =>
      rw [List.dropWhile_cons_of_neg]
      rw [front c rfl]
      exact Bool.false_ne_true
  have reversed : cs.reverse.dropWhile isControl = cs.reverse := untouched (by rwa [List.head?_reverse])
  rw [clean, untouched front, reversed, List.reverse_reverse, List.filter_eq_self]
  exact kept

theorem visibleKept {c : Char} (visible : isControl c = false) : (c != '\t' && c != '\n' && c != '\r') = true := by
  have other {d : Char} (control : isControl d = true) : (c != d) = true := by
    apply bne_iff_ne.mpr
    rintro rfl
    rw [control] at visible
    contradiction
  rw [other (d := '\t') rfl, other (d := '\n') rfl, other (d := '\r') rfl]
  rfl

theorem parseSafe {host first : List Char} {segments : List (List Char)} (plainHost : PlainHost host)
    (safe : ∀ segment ∈ first :: segments, segment.all isSafe = true)
    (back : ∀ c ∈ (Text.path (first :: segments)).getLast?, isControl c = false) :
    parse? (String.ofList ("http://".toList ++ (host ++ Text.path (first :: segments)))) =
      some ⟨String.ofList host, String.ofList (sentPath (first :: segments))⟩ := by
  have inside := pathSafe safe
  have kept : ∀ c ∈ "http://".toList ++ (host ++ Text.path (first :: segments)),
      (c != '\t' && c != '\n' && c != '\r') = true := by
    intro c mem
    rcases List.mem_append.mp mem with mem | mem
    · have scheme : ("http://".toList.all fun c => !isControl c) = true := rfl
      exact visibleKept (Bool.not_eq_eq_eq_not.mp (List.all_eq_true.mp scheme c mem))
    · rcases List.mem_append.mp mem with mem | mem
      · exact visibleKept (plainHost.plain c mem).1
      · exact (inside c mem).2.2
  have ended : (Text.path (first :: segments)) = '/' :: (first ++ Text.path segments) := rfl
  have cleaned : clean ("http://".toList ++ (host ++ Text.path (first :: segments))) =
      "http://".toList ++ (host ++ Text.path (first :: segments)) := by
    refine cleanWhole (fun c start => ?_) (fun c last => back c ?_) kept
    · cases start
      rfl
    · have filled : Text.path (first :: segments) ≠ [] := ended ▸ List.cons_ne_nil _ _
      rw [List.getLast?_append, List.getLast?_append, List.getLast?_eq_some_getLast filled, Option.some_or,
        Option.some_or] at last
      rwa [List.getLast?_eq_some_getLast filled]
  have slashes : (("http://".toList ++ (host ++ Text.path (first :: segments))).drop 5).dropWhile isSlash =
      host ++ Text.path (first :: segments) := by
    obtain ⟨c, cs, rfl⟩ := List.exists_cons_of_ne_nil plainHost.named
    have letter := (plainHost.plain c List.mem_cons_self).2.1
    change (c :: (cs ++ Text.path (first :: segments))).dropWhile isSlash = _
    rw [List.dropWhile_cons_of_neg]
    · rfl
    · rw [letter]
      exact Bool.false_ne_true
  have within : ∀ c ∈ host, (!(isSlash c || decide (c = '?') || decide (c = '#'))) = true := by
    intro c mem
    obtain ⟨_, slash, query, fragment, _⟩ := plainHost.plain c mem
    simp only [slash, query, fragment, decide_false, Bool.or_self, Bool.not_false]
  have lower : Text.lower host = host := by
    rw [Text.lower, List.map_congr_left fun c mem => (plainHost.plain c mem).2.2.2.2, List.map_id']
  simp only [parse?, String.toList_ofList, cleaned]
  rw [show Text.lower (("http://".toList ++ (host ++ Text.path (first :: segments))).take 5) = "http:".toList from rfl]
  simp only [if_true, Option.bind_eq_bind, Option.bind_some, slashes]
  rw [List.takeWhile_append_of_pos within, List.dropWhile_append_of_pos within, ended]
  rw [List.takeWhile_cons_of_neg (by decide), List.dropWhile_cons_of_neg (by decide), List.append_nil,
    plainHost.ported, lower, if_neg plainHost.named, ← ended, targetOfSafe safe]
  rfl

end Url

theorem Route.ofSafe {first : List Char} {segments : List (List Char)}
    (safe : ∀ segment ∈ first :: segments, segment.all Url.isSafe = true) :
    let coded := (first :: segments).map (Percent.encode Percent.isPlainInPath)
    Text.fields (· == '/') ((Text.path coded).takeWhile fun c => c != '?' && c != '#') = [] :: coded := by
  intro coded
  have outside : ∀ segment ∈ coded, ∀ c ∈ segment, c ≠ '/' ∧ c ≠ '?' ∧ c ≠ '#' := by
    intro segment mem c among
    obtain ⟨raw, given, rfl⟩ := List.mem_map.mp mem
    rcases Percent.encodeChars c among with ⟨among, plain⟩ | digit
    · have here := Url.safeChar (safe raw given) among
      refine ⟨?_, here.query, here.fragment⟩
      rintro rfl
      exact absurd here.slash (by decide)
    · have digits : ∀ c ∈ "%0123456789ABCDEF".toList, c ≠ '/' ∧ c ≠ '?' ∧ c ≠ '#' := by decide
      exact digits c digit
  have whole : ((Text.path coded).takeWhile fun c => c != '?' && c != '#') = Text.path coded := by
    refine List.takeWhile_eq_self_iff.mpr fun c mem => ?_
    obtain ⟨segment, among, mem⟩ := List.mem_flatMap.mp mem
    rcases List.mem_cons.mp mem with rfl | mem
    · rfl
    · obtain ⟨_, query, fragment⟩ := outside segment among c mem
      exact Bool.and_eq_true_iff.mpr ⟨bne_iff_ne.mpr query, bne_iff_ne.mpr fragment⟩
  have apart : ∀ segment ∈ [] :: coded, ∀ c ∈ segment, (c == '/') = false := by
    intro segment mem c among
    rcases List.mem_cons.mp mem with rfl | mem
    · contradiction
    · exact beq_eq_false_iff_ne.mpr (outside segment mem c among).1
  rw [whole]
  exact Text.fieldsPath rfl apart

theorem Store.artistIdPlain (n : Nat) : ∀ c ∈ (Store.artistId n).toList,
    Percent.isPlainInPath c = true ∧ Url.isSafe c = true := by
  have chars : ("artist".toList ++ "0123456789".toList).all
      (fun c => Percent.isPlainInPath c && Url.isSafe c) = true := rfl
  intro c mem
  exact Bool.and_eq_true_iff.mp (List.all_eq_true.mp chars c (artistIdChars n c mem))

theorem Store.artistIdSafe (n : Nat) : (Store.artistId n).toList.all Url.isSafe = true :=
  List.all_eq_true.mpr fun c mem => (artistIdPlain n c mem).2

theorem Store.artistIdLevel (n : Nat) : Url.Level (Store.artistId n).toList where
  uncoded := fun _ mem => (Url.safeChar (artistIdSafe n) mem).uncoded
  sameLevel := by
    rw [artistIdList]
    exact nofun
  levelAbove := by
    rw [artistIdList]
    exact nofun

theorem Store.decodeArtistId (n : Nat) : Percent.decode? (Store.artistId n).toList = some (Store.artistId n) := by
  have decoded := Percent.decodePlain (artistIdLevel n).uncoded
  rw [String.ofList_toList] at decoded
  exact decoded

/- A client whose requests reach the service at a host: the roster, and the queue of every artist. -/
structure Client.Addresses (c : Client) (host : String) : Prop where
  roster : ∃ target, Url.parse? c.artistsUrl = some ⟨host, target⟩ ∧ Route.ofTarget? target = some .artists
  queue : ∀ n, ∃ target, Url.parse? (c.movesUrl (Store.artistId n)) = some ⟨host, target⟩ ∧
    Route.ofTarget? target = some (.moves (Store.artistId n).toList)

theorem Client.ofPlainBase {host : String} (plain : Url.PlainHost host.toList) :
    (Client.ofBase ("http://" ++ host)).baseUrl = "http://" ++ host := by
  have spelled : ("http://" ++ host).toList = "http://".toList ++ host.toList := String.toList_append
  have kept : ("http://".toList ++ host.toList).reverse.dropWhile (· == '/') =
      ("http://".toList ++ host.toList).reverse := by
    obtain ⟨cs, c, ended⟩ := List.eq_nil_or_concat host.toList |>.resolve_left plain.named
    have slash := (plain.plain c (by rw [ended, List.concat_eq_append]; exact List.mem_concat_self)).2.1
    rw [ended, List.concat_eq_append, List.reverse_append, List.reverse_append, List.reverse_singleton,
      List.singleton_append, List.cons_append, List.dropWhile_cons_of_neg]
    intro same
    rw [beq_iff_eq.mp same] at slash
    contradiction
  rw [ofBase, spelled, kept, List.reverse_reverse, ← spelled, String.ofList_toList]

def Url.toMoves (id : String) : List (List Char) := ["api".toList, "artists".toList, id.toList, "moves".toList]

theorem Url.toMovesSafe {id : String} (safe : id.toList.all isSafe = true) :
    ∀ segment ∈ toMoves id, segment.all isSafe = true := by
  simp only [toMoves, List.forall_mem_cons, safe, List.not_mem_nil, false_implies, implies_true, and_true, true_and]
  exact ⟨rfl, rfl, rfl⟩

theorem Url.toMovesLevel {id : String} (level : Level id.toList) : ∀ segment ∈ toMoves id, Level segment := by
  simp only [toMoves, List.forall_mem_cons, level, List.not_mem_nil, false_implies, implies_true, and_true, true_and]
  exact ⟨⟨by decide, by decide, by decide⟩, ⟨by decide, by decide, by decide⟩, by decide, by decide, by decide⟩

theorem Client.movesParsed {host : String} (plain : Url.PlainHost host.toList) {id : String}
    (safe : id.toList.all Url.isSafe = true) :
    Url.parse? ((Client.ofBase ("http://" ++ host)).movesUrl id) =
      some ⟨host, String.ofList (Url.sentPath (Url.toMoves id))⟩ := by
  have path : Text.path (Url.toMoves id) = "/api/artists/".toList ++ id.toList ++ "/moves".toList := by
    simp only [Url.toMoves, Text.path, List.flatMap_cons, List.flatMap_nil, List.append_nil, List.cons_append,
      List.append_assoc]
    rfl
  have spelled : (Client.ofBase ("http://" ++ host)).movesUrl id =
      String.ofList ("http://".toList ++ (host.toList ++ Text.path (Url.toMoves id))) := by
    apply String.toList_injective
    rw [movesUrl, ofPlainBase plain, path]
    simp only [String.toList_append, String.toList_ofList, List.append_assoc]
  have back : ∀ c ∈ (Text.path (Url.toMoves id)).getLast?, Url.isControl c = false := by
    intro c last
    rw [path, List.getLast?_append] at last
    cases last
    rfl
  have parsed := Url.parseSafe plain (Url.toMovesSafe safe) back
  rw [← Url.toMoves, ← spelled, String.ofList_toList] at parsed
  exact parsed

theorem Client.movesRoute {host : String} (plain : Url.PlainHost host.toList) {id : String}
    (safe : id.toList.all Url.isSafe = true) (level : Url.Level id.toList) :
    ∃ target, Url.parse? ((Client.ofBase ("http://" ++ host)).movesUrl id) = some ⟨host, target⟩ ∧
      Route.ofTarget? target = some (.moves (Percent.encode Percent.isPlainInPath id.toList)) := by
  refine ⟨_, movesParsed plain safe, ?_⟩
  have taken := Route.ofSafe (Url.toMovesSafe safe)
  rw [← Url.toMoves] at taken
  simp only [Route.ofTarget?, String.toList_ofList, Url.sentPath, Url.resolveLevels (Url.toMovesLevel level),
    List.reverse_nil, List.nil_append, taken]
  rfl

theorem Client.plainAddresses {host : String} (plain : Url.PlainHost host.toList) :
    (Client.ofBase ("http://" ++ host)).Addresses host where
  roster := by
    have parts : ∀ segment ∈ ["api".toList, "artists".toList], segment.all Url.isSafe = true := by decide
    have spelled : (Client.ofBase ("http://" ++ host)).artistsUrl = String.ofList ("http://".toList ++
        (host.toList ++ Text.path ["api".toList, "artists".toList])) := by
      apply String.toList_injective
      rw [artistsUrl, ofPlainBase plain]
      simp only [String.toList_append, String.toList_ofList, List.append_assoc]
      rfl
    have back : ∀ c ∈ (Text.path ["api".toList, "artists".toList]).getLast?, Url.isControl c = false := by
      intro c last
      cases last
      rfl
    have parsed := Url.parseSafe plain parts back
    rw [String.ofList_toList] at parsed
    exact ⟨_, spelled ▸ parsed, by decide⟩
  queue := by
    intro n
    obtain ⟨target, parsed, route⟩ := movesRoute plain (Store.artistIdSafe n) (Store.artistIdLevel n)
    rw [Percent.encodePlain fun c mem => (Store.artistIdPlain n c mem).1] at route
    exact ⟨target, parsed, route⟩

end TurtleBoard

import TurtleBoard.Proofs.NormalForm

/-! How the lines of a script are cut, and which of them count. A line ends at a line feed, with or without a carriage
return before it; the carriage return is a blank in any case, so a script has the same actions with and without it.
What stands before the first sentinel does not count, and behind it every line is read for itself. -/
namespace TurtleBoard

namespace Text

inductive Lined : List Char → List (List Char) → Prop where
  | nil : Lined [] []
  | last {line : List Char} (filled : line ≠ []) (single : '\n' ∉ line) : Lined line [line]
  | feed {line rest : List Char} {others : List (List Char)} (single : '\n' ∉ line)
      (plain : line.getLast? ≠ some '\r') (next : Lined rest others) : Lined (line ++ '\n' :: rest) (line :: others)
  | returnFeed {line rest : List Char} {others : List (List Char)} (single : '\n' ∉ line) (next : Lined rest others) :
      Lined (line ++ '\r' :: '\n' :: rest) (line :: others)

theorem dropReturnSnoc (cs : List Char) : dropReturn (cs ++ ['\r']) = cs := by
  rw [dropReturn, List.reverse_append]
  exact List.reverse_reverse cs

theorem linesSplit {cs last : List Char} {parts : List (List Char)} (split : cs.splitOn '\n' = parts ++ [last]) :
    lines cs = parts.map dropReturn ++ if last = [] then [] else [last] := by
  have same : fields (· == '\n') cs = parts ++ [last] := (fieldsSplit _ cs).trans split
  simp only [lines, same, List.dropLast_concat, List.getLast?_concat]
  cases last with
  | nil => exact (List.append_nil _).symm
  | cons c last => rfl

theorem splitFound (cs : List Char) : ∃ parts last, cs.splitOn '\n' = parts ++ [last] :=
  ⟨_, _, (List.dropLast_concat_getLast (List.splitOn_ne_nil '\n' cs)).symm⟩

theorem linesLast {cs : List Char} (single : '\n' ∉ cs) : lines cs = if cs = [] then [] else [cs] := by
  have split : cs.splitOn '\n' = [] ++ [cs] := List.splitOn_eq_singleton single
  rw [linesSplit split, List.map_nil, List.nil_append]

theorem linesFeed {line : List Char} (single : '\n' ∉ line) (rest : List Char) :
    lines (line ++ '\n' :: rest) = dropReturn line :: lines rest := by
  obtain ⟨parts, last, split⟩ := splitFound rest
  have whole : (line ++ '\n' :: rest).splitOn '\n' = (line :: parts) ++ [last] := by
    rw [List.splitOn_append_cons_self_of_not_mem single, split, List.cons_append]
  rw [linesSplit whole, linesSplit split, List.map_cons, List.cons_append]

theorem linedLines (cs : List Char) : Lined cs (lines cs) := by
  by_cases feed : '\n' ∈ cs
  · obtain ⟨line, rest, same, single⟩ := List.eq_append_cons_of_mem feed
    have shorter : rest.length < cs.length := by
      rw [same, List.length_append, List.length_cons]
      omega
    have next := linedLines rest
    rw [same, linesFeed single]
    by_cases returns : line.getLast? = some '\r'
    · obtain ⟨front, rfl⟩ := List.getLast?_eq_some_iff.mp returns
      rw [dropReturnSnoc, List.append_assoc]
      exact .returnFeed (fun mem => single (List.mem_append_left _ mem)) next
    · rw [dropReturnPlain returns]
      exact .feed single returns next
  · rw [linesLast feed]
    split
    · rename_i empty
      exact empty ▸ .nil
    · rename_i filled
      exact .last filled feed
termination_by cs.length

theorem linesIff (cs : List Char) (parts : List (List Char)) : lines cs = parts ↔ Lined cs parts := by
  constructor
  · rintro rfl
    exact linedLines cs
  · intro lined
    induction lined with
    | nil => rfl
    | last filled single => rw [linesLast single, if_neg filled]
    | feed single plain _ ih => rw [linesFeed single, dropReturnPlain plain, ih]
    | @returnFeed line rest others single _ ih =>
      have same : line ++ '\r' :: '\n' :: rest = (line ++ ['\r']) ++ '\n' :: rest := by
        rw [List.append_assoc]
        rfl
      have single' : '\n' ∉ line ++ ['\r'] := by simpa using single
      rw [same, linesFeed single', dropReturnSnoc, ih]

theorem trimReturn (cs : List Char) : trim (cs ++ ['\r']) = trim cs := by
  rw [trim, trim, trimStart, trimStart, List.dropWhile_append]
  split
  · rename_i blank
    rw [List.isEmpty_iff.mp blank]
    rfl
  · rw [trimEnd, trimEnd, List.reverse_append]
    rfl

theorem trimDropReturn (cs : List Char) : trim (dropReturn cs) = trim cs := by
  by_cases returns : cs.getLast? = some '\r'
  · obtain ⟨front, rfl⟩ := List.getLast?_eq_some_iff.mp returns
    rw [dropReturnSnoc, trimReturn]
  · rw [dropReturnPlain returns]

inductive Returned : List Char → List Char → Prop where
  | nil : Returned [] []
  | keep {cs ds : List Char} (c : Char) (next : Returned cs ds) : Returned (c :: cs) (c :: ds)
  | feed {cs ds : List Char} (next : Returned cs ds) : Returned ('\n' :: cs) ('\r' :: '\n' :: ds)

def Ends (line other : List Char) : Prop := other = line ∨ other = line ++ ['\r']

theorem returnedLines {cs ds : List Char} (returned : Returned cs ds) :
    List.Forall₂ Ends (cs.splitOn '\n') (ds.splitOn '\n') := by
  induction returned with
  | nil => exact .cons (.inl rfl) .nil
  | @keep cs ds c _ ih =>
    rw [List.splitOn_cons_eq_if_modifyHead, List.splitOn_cons_eq_if_modifyHead]
    generalize cs.splitOn '\n' = parts at ih ⊢
    generalize ds.splitOn '\n' = others at ih ⊢
    split
    · exact .cons (.inl rfl) ih
    · cases ih with
      | nil => exact .nil
      | cons first ih => exact .cons (first.imp (congrArg (c :: ·)) (congrArg (c :: ·))) ih
  | feed _ ih =>
    exact .cons (.inr rfl) ih

theorem endsTrim {parts others : List (List Char)} (ends : List.Forall₂ Ends parts others) :
    others.map trim = parts.map trim := by
  induction ends with
  | nil => rfl
  | cons first _ ih =>
    rw [List.map_cons, List.map_cons, ih]
    rcases first with rfl | rfl
    · rfl
    · rw [trimReturn]

end Text

namespace Line

def Sentinel (line : List Char) : Prop := Text.lower (Text.trim line) = "draw mode".toList

instance (line : List Char) : Decidable (Sentinel line) := inferInstanceAs (Decidable (_ = _))

theorem sentinelReturn (line : List Char) : Sentinel (Text.dropReturn line) ↔ Sentinel line := by
  rw [Sentinel, Sentinel, Text.trimDropReturn]

theorem sentinelIff (line : List Char) : isSentinel (String.ofList line) = true ↔ Sentinel line := by
  rw [isSentinel, beq_iff_eq, String.toList_ofList, Sentinel]

end Line

namespace Script
open Line (isSentinel action?)

section
variable {ls rs : List String}

theorem ofLinesAt (before : ∀ line ∈ ls, isSentinel line = false) {line : String} (here : isSentinel line = true) :
    ofLines (ls ++ line :: rs) = rs.filterMap action? := by
  have skipped : ∀ line ∈ ls, (!isSentinel line) = true := by simpa using before
  rw [ofLines, List.dropWhile_append_of_pos skipped, List.dropWhile_cons_of_neg (by simp [here]), List.drop_one,
    List.tail_cons]

theorem ofLinesNone (before : ∀ line ∈ ls, isSentinel line = false) : ofLines (ls ++ rs) = ofLines rs := by
  have skipped : ∀ line ∈ ls, (!isSentinel line) = true := by simpa using before
  rw [ofLines, List.dropWhile_append_of_pos skipped, ofLines]

theorem ofLinesSome (some : ∃ line ∈ ls, isSentinel line = true) :
    ofLines (ls ++ rs) = ofLines ls ++ rs.filterMap action? := by
  obtain ⟨line, found⟩ := Option.isSome_iff_exists.mp (List.find?_isSome.mpr some)
  obtain ⟨here, before, after, rfl, skipped⟩ := List.find?_eq_some_iff_append.mp found
  have earlier : ∀ line ∈ before, isSentinel line = false := by simpa using skipped
  rw [List.append_assoc, List.cons_append, ofLinesAt earlier here, ofLinesAt earlier here, List.filterMap_append]

end

def texts (parts : List (List Char)) : List String := parts.map String.ofList

theorem ofLinesTrim (parts : List (List Char)) : ofLines (texts (parts.map Text.trim)) = ofLines (texts parts) := by
  have twice (line : List Char) : Text.trim (Text.trim line) = Text.trim line :=
    Text.trimOfTrimmed (Text.trimTrimmed line)
  have sentinel : (fun line => !isSentinel (String.ofList (Text.trim line))) =
      fun line => !isSentinel (String.ofList line) := by
    funext line
    simp only [isSentinel, String.toList_ofList, twice]
  have action : (fun line => action? (String.ofList (Text.trim line))) = fun line => action? (String.ofList line) := by
    funext line
    simp only [action?, String.toList_ofList, twice]
  simp only [ofLines, texts, List.dropWhile_map, ← List.map_drop, List.filterMap_map, Function.comp_def, sentinel,
    action]

theorem ofLinesLike {parts others : List (List Char)} (same : others.map Text.trim = parts.map Text.trim) :
    ofLines (texts others) = ofLines (texts parts) := by
  rw [← ofLinesTrim others, same, ofLinesTrim]

/- What stands behind the last line feed is a line though it may be empty: as a line it says nothing. -/
theorem ofLinesBlank (ls : List String) : ofLines (ls ++ [""]) = ofLines ls := by
  by_cases some : ∃ line ∈ ls, isSentinel line = true
  · have nothing : [""].filterMap action? = [] := by decide
    rw [ofLinesSome some, nothing, List.append_nil]
  · have before : ∀ line ∈ ls, isSentinel line = false := by simpa using some
    have alone : ofLines (ls ++ []) = ofLines [] := ofLinesNone before
    rw [List.append_nil] at alone
    rw [ofLinesNone before, alone]
    rfl

theorem parsePieces (script : String) : parse script = ofLines (texts (script.toList.splitOn '\n')) := by
  obtain ⟨parts, last, split⟩ := Text.splitFound script.toList
  have trims : (parts.map Text.dropReturn).map Text.trim = parts.map Text.trim := by
    rw [List.map_map]
    exact List.map_congr_left fun line _ => Text.trimDropReturn line
  have whole : parse script = ofLines (texts (parts.map Text.dropReturn ++ [last])) := by
    have read : parse script = ofLines (texts (Text.lines script.toList)) := rfl
    rw [read, Text.linesSplit split]
    split
    · rename_i empty
      rw [empty, List.append_nil, texts, texts, List.map_append]
      exact (ofLinesBlank _).symm
    · rfl
  rw [whole, split]
  apply ofLinesLike
  rw [List.map_append, List.map_append, trims]

theorem sentinelPieces (cs : List Char) :
    (∃ line ∈ texts (cs.splitOn '\n'), isSentinel line = true) ↔ ∃ line ∈ Text.lines cs, Line.Sentinel line := by
  obtain ⟨parts, last, split⟩ := Text.splitFound cs
  have blank : ¬Line.Sentinel [] := by decide
  simp only [texts, List.mem_map, exists_exists_and_eq_and, Line.sentinelIff]
  simp only [split, Text.linesSplit split, List.mem_append, List.mem_singleton, List.mem_map, or_and_right, exists_or,
    exists_eq_left, exists_exists_and_eq_and, Line.sentinelReturn]
  by_cases empty : last = []
  · simp [empty, blank]
  · simp [empty]

theorem readPieces (cs : List Char) :
    (texts (cs.splitOn '\n')).filterMap action? = (texts (Text.lines cs)).filterMap action? := by
  have single : '\n' ∉ "draw mode".toList := by decide
  have here : isSentinel "draw mode" = true := by decide
  have plain : Text.dropReturn "draw mode".toList = "draw mode".toList := by decide
  have behind (ls : List String) : ofLines ([] ++ "draw mode" :: ls) = ls.filterMap action? :=
    ofLinesAt (List.forall_mem_nil _) here
  have pieces := parsePieces (String.ofList ("draw mode".toList ++ '\n' :: cs))
  have script : parse (String.ofList ("draw mode".toList ++ '\n' :: cs)) =
      ofLines ("draw mode" :: texts (Text.lines cs)) := by
    rw [parse, String.toList_ofList, Text.linesFeed single, plain, List.map_cons, String.ofList_toList, texts]
  rw [script, String.toList_ofList, List.splitOn_append_cons_self_of_not_mem single] at pieces
  rw [← behind, ← behind]
  exact pieces.symm

theorem joinPieces (first second : String) : texts ((first ++ "\n" ++ second).toList.splitOn '\n') =
    texts (first.toList.splitOn '\n') ++ texts (second.toList.splitOn '\n') := by
  have feed : "\n".toList = ['\n'] := rfl
  rw [String.toList_append, String.toList_append, feed, List.append_assoc, List.singleton_append,
    List.splitOn_append_cons_self, texts, List.map_append]
  rfl

theorem parseSilent {script : String} (silent : ∀ line ∈ Text.lines script.toList, ¬Line.Sentinel line)
    (rest : String) : parse script = [] ∧ parse (script ++ "\n" ++ rest) = parse rest := by
  have before : ∀ line ∈ texts (script.toList.splitOn '\n'), isSentinel line = false := by
    have absent := mt (sentinelPieces script.toList).mp (by simpa using silent)
    simpa using absent
  have alone : ofLines (texts (script.toList.splitOn '\n') ++ []) = ofLines [] := ofLinesNone before
  rw [List.append_nil] at alone
  rw [parsePieces script, alone, parsePieces, joinPieces, ofLinesNone before, parsePieces rest]
  exact ⟨rfl, rfl⟩

theorem parseOpen {script : String} (opened : ∃ line ∈ Text.lines script.toList, Line.Sentinel line) (rest : String) :
    parse (script ++ "\n" ++ rest) = parse script ++ (texts (Text.lines rest.toList)).filterMap action? := by
  have some := (sentinelPieces script.toList).mpr opened
  rw [parsePieces, joinPieces, ofLinesSome some, ← parsePieces, readPieces]

theorem parseReturned {script other : String} (returned : Text.Returned script.toList other.toList) :
    parse other = parse script := by
  rw [parsePieces, parsePieces]
  exact ofLinesLike (Text.endsTrim (Text.returnedLines returned))

structure Gated (before opened rest : String) : Prop where
  silent : (∀ line ∈ Text.lines before.toList, ¬Line.Sentinel line) →
    parse before = [] ∧ parse (before ++ "\n" ++ rest) = parse rest
  behind : (∃ line ∈ Text.lines opened.toList, Line.Sentinel line) →
    parse (opened ++ "\n" ++ rest) = parse opened ++ (texts (Text.lines rest.toList)).filterMap action?
  later : ∀ line, Line.Sentinel line → action? (String.ofList line) = none
  lined : ∀ cs parts, Text.lines cs = parts ↔ Text.Lined cs parts
  returned : ∀ script other : String, Text.Returned script.toList other.toList → parse other = parse script

theorem sentinelGates (before opened rest : String) : Gated before opened rest where
  silent := fun silent => parseSilent silent rest
  behind := fun opened => parseOpen opened rest
  later := fun line sentinel => Line.sentinelUnread ((Line.sentinelIff line).mpr sentinel)
  lined := Text.linesIff
  returned := fun _ _ => parseReturned

example : (parse "forward 3\r\n \tDraw MODE \r\nleft\r\ndraw mode\nsay hi").map (·.command) =
    [.turnLeft 90.0, .say "hi"] := by decide +kernel

end Script
end TurtleBoard

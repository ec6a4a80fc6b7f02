import Mathlib

/-!
# Slashes in a text

A text is split by walking over it with a place for where the piece at hand begins. Told of the
characters before, in and after that piece, this is how a list is split.

* `splitOnAux_nil`/`splitOnAux_slash`/`splitOnAux_of_ne`: one step of the walk.
* `splitOn_slash`: `text.splitOn "/"` are the pieces of `text.toList.splitOn '/'`.
* `splitOn_slash_append`: a slash between two texts ends the last piece of the first one.
* `startsWith_slash`/`endsWith_slash`: a slash at either end.
-/

namespace RoadTraffic

open String

section Walk

variable {before piece after : List Char} {c : Char} {pieces : List String}

/-- At the end of the text the `piece` at hand is the last one. -/
theorem splitOnAux_nil : splitOnAux (.ofList (before ++ piece ++ [])) "/" ⟨utf8Len before⟩
    ⟨utf8Len (before ++ piece)⟩ 0 pieces = pieces.reverse ++ [ofList piece] := by
  have hpiece := extract_of_valid before piece []
  rw [← utf8Len_append] at hpiece
  rw [splitOnAux, if_pos ((atEnd_of_valid _ _).mpr rfl), hpiece]
  exact List.reverse_cons

/-- A slash ends the `piece` at hand, and the next one begins after it. -/
theorem splitOnAux_slash : splitOnAux (.ofList (before ++ piece ++ '/' :: after)) "/"
    ⟨utf8Len before⟩ ⟨utf8Len (before ++ piece)⟩ 0 pieces =
      splitOnAux (.ofList (before ++ piece ++ '/' :: after)) "/"
        ⟨utf8Len (before ++ piece ++ ['/'])⟩
        ⟨utf8Len (before ++ piece ++ ['/'])⟩ 0 (ofList piece :: pieces) := by
  have hend := (atEnd_of_valid (before ++ piece) ('/' :: after)).not.mpr (List.cons_ne_nil _ _)
  have hpiece := extract_of_valid before piece ('/' :: after)
  have hplace : utf8Len (before ++ piece ++ ['/']) = utf8Len (before ++ piece) + '/'.utf8Size :=
    utf8Len_append _ _
  have hback : Pos.Raw.unoffsetBy ⟨utf8Len (before ++ piece) + '/'.utf8Size⟩ ⟨1⟩ =
      ⟨utf8Len (before ++ piece)⟩ := rfl
  -- The separator is one character, so that its end is reached by its first.
  have hnext : Pos.Raw.next "/" 0 = ⟨1⟩ := rfl
  have hatEnd : Pos.Raw.atEnd "/" ⟨1⟩ = true := rfl
  have hsame : (['/'].headD default == Pos.Raw.get "/" 0) = true := rfl
  rw [← utf8Len_append] at hpiece
  rw [splitOnAux, if_neg hend, get_of_valid, next_of_valid, hplace]
  rw [List.headD_cons] at hsame ⊢
  rw [if_pos hsame]
  simp only [hnext]
  rw [if_pos hatEnd, hback, hpiece]

/-- Any other character `c` belongs to the `piece` at hand. -/
theorem splitOnAux_of_ne (h : c ≠ '/') : splitOnAux (.ofList (before ++ piece ++ c :: after)) "/"
    ⟨utf8Len before⟩ ⟨utf8Len (before ++ piece)⟩ 0 pieces =
      splitOnAux (.ofList (before ++ piece ++ c :: after)) "/" ⟨utf8Len before⟩
        ⟨utf8Len (before ++ piece ++ [c])⟩ 0 pieces := by
  have hend := (atEnd_of_valid (before ++ piece) (c :: after)).not.mpr (List.cons_ne_nil _ _)
  have hplace : utf8Len (before ++ piece ++ [c]) = utf8Len (before ++ piece) + c.utf8Size := by
    rw [utf8Len_append (before ++ piece)]
    simp
  have hback : Pos.Raw.unoffsetBy ⟨utf8Len (before ++ piece)⟩ 0 =
      ⟨utf8Len (before ++ piece)⟩ := rfl
  have hmark : Pos.Raw.get "/" 0 = '/' := rfl
  rw [splitOnAux, if_neg hend, get_of_valid, hback, next_of_valid, hplace, hmark,
    if_neg (by simpa using h)]

theorem splitOnAux_eq (before piece after : List Char) (pieces : List String) :
    splitOnAux (.ofList (before ++ piece ++ after)) "/" ⟨utf8Len before⟩
      ⟨utf8Len (before ++ piece)⟩ 0 pieces = pieces.reverse ++
        (List.splitOnPPrepend (· == '/') after piece.reverse).map ofList := by
  induction after generalizing before piece pieces with
  | nil => rw [splitOnAux_nil, List.splitOnPPrepend_nil, List.reverse_reverse, List.map_singleton]
  | cons c after ih =>
    rw [List.splitOnPPrepend_cons_eq_if]
    by_cases h : c = '/'
    · subst h
      have hrest := ih (before ++ piece ++ ['/']) [] (ofList piece :: pieces)
      rw [List.append_nil, List.append_assoc _ ['/'], List.singleton_append] at hrest
      rw [splitOnAux_slash, hrest, if_pos (beq_self_eq_true _), List.reverse_cons,
        List.append_assoc, List.reverse_reverse]
      rfl
    · have hrest := ih before (piece ++ [c]) pieces
      rw [← List.append_assoc, List.append_assoc _ [c], List.singleton_append] at hrest
      rw [splitOnAux_of_ne h, hrest, if_neg (by simpa using h), List.reverse_append]
      rfl

end Walk

/-- A text is split like the list of its characters. -/
theorem splitOn_slash (text : String) :
    text.splitOn "/" = (text.toList.splitOn '/').map ofList := by
  have hwalk := splitOnAux_eq [] [] text.toList []
  rw [List.nil_append, List.nil_append, ofList_toList] at hwalk
  rw [String.splitOn, if_neg (by decide), List.splitOn, List.splitOnP_eq_splitOnPPrepend]
  exact hwalk

/-- A slash between `a` and `b` ends the last piece of `a`. -/
theorem splitOn_slash_append (a b : String) :
    (a ++ "/" ++ b).splitOn "/" = a.splitOn "/" ++ b.splitOn "/" := by
  have htext : (a ++ "/" ++ b).toList = a.toList ++ '/' :: b.toList := by simp
  simp only [splitOn_slash, htext, List.splitOn_append_cons_self, List.map_append]

/-- A text without slashes is one piece. -/
theorem splitOn_slash_of_notMem {text : String} (h : '/' ∉ text.toList) :
    text.splitOn "/" = [text] := by
  have hpieces : text.toList.splitOn '/' = [text.toList] := List.splitOn_eq_singleton h
  rw [splitOn_slash, hpieces, List.map_singleton, ofList_toList]

theorem splitOn_slash_empty : "".splitOn "/" = [""] := splitOn_slash_of_notMem List.not_mem_nil

theorem splitOn_slash_concat (text : String) :
    (text ++ "/").splitOn "/" = text.splitOn "/" ++ [""] := by
  have hsplit := splitOn_slash_append text ""
  rwa [append_empty, splitOn_slash_empty] at hsplit

/-! ## At either end -/

theorem startsWith_slash (text : String) :
    text.startsWith "/" = (text.toList.head? == some '/') := by
  have hslash : "/".toList = ['/'] := rfl
  rw [Bool.eq_iff_iff, String.startsWith, Slice.startsWith_string_iff, copy_toSlice, beq_iff_eq,
    hslash]
  cases text.toList with
  | nil => simp
  | cons c rest => simp [eq_comm]

theorem endsWith_slash (text : String) :
    text.endsWith "/" = (text.toList.getLast? == some '/') := by
  rw [Bool.eq_iff_iff, String.endsWith, Slice.endsWith_string_iff, copy_toSlice, beq_iff_eq,
    List.getLast?_eq_some_iff]
  exact ⟨fun ⟨before, h⟩ => ⟨before, h.symm⟩, fun ⟨before, h⟩ => ⟨before, h.symm⟩⟩

/-- What is put behind a text does not change what it starts with, unless it is empty. -/
theorem startsWith_slash_append {a : String} (h : a ≠ "") (b : String) :
    (a ++ b).startsWith "/" = a.startsWith "/" := by
  have hne : a.toList ≠ [] := by simpa using h
  rw [startsWith_slash, startsWith_slash, toList_append, List.head?_append_of_ne_nil _ hne]

/-- A text that ends with a slash is another one with a slash behind it. -/
theorem exists_eq_append_slash {text : String} (h : text.endsWith "/" = true) :
    ∃ before, text = before ++ "/" := by
  rw [endsWith_slash, beq_iff_eq, List.getLast?_eq_some_iff] at h
  obtain ⟨before, h⟩ := h
  exact ⟨ofList before, by rw [← toList_inj, h]; simp⟩

end RoadTraffic

import Mathlib
import RoadTraffic.Remote
import RoadTraffic.Proofs.Text.Percent
import RoadTraffic.Proofs.Text.Slashes

/-!
# One address for each edition

The address of an edition's data is the base, at most one segment for the version, and the name of
a file. The name keeps to its segment whatever the region is, so that no two editions share an
address, and the values of one are never where the keys of another are.

* `append_inj_of_separator`: `a ++ x = b ++ y` splits at the last `mark`.
* `Remote.IsFolder version text`/`Remote.IsFileName region suffix name`: what may come after the
  base.
* `Remote.valuesUrl?_inj`/`keysUrl?_inj`: equal addresses are for equal editions.
* `Remote.urls_of_base`: both addresses are `withSlash base ++ folder ++ name`.
-/

namespace RoadTraffic

/-- If `x` and `y` hold no `mark`, and `a` and `b` are empty or end in `mark`, then
`a ++ x = b ++ y` has the same parts on both sides. -/
theorem append_inj_of_separator {α : Type} {mark : α} {a b x y : List α}
    (ha : a = [] ∨ a.getLast? = some mark) (hb : b = [] ∨ b.getLast? = some mark)
    (hx : mark ∉ x) (hy : mark ∉ y) (h : a ++ x = b ++ y) : a = b ∧ x = y := by
  -- what one part has in addition would end in the separator, and it is within the other's rest
  have hnil {a extra : List α} (h : a ++ extra = [] ∨ (a ++ extra).getLast? = some mark)
      (hextra : mark ∉ extra) : extra = [] := by
    obtain h | h := h
    · exact (List.append_eq_nil_iff.mp h).2
    · by_contra hne
      rw [List.getLast?_append_of_ne_nil a hne] at h
      exact hextra (List.mem_of_getLast? h)
  obtain ⟨extra, rfl, rfl⟩ | ⟨extra, rfl, rfl⟩ := List.append_eq_append_iff.mp h
  · obtain rfl := hnil hb fun hmem => hx (List.mem_append_left _ hmem)
    simp
  · obtain rfl := hnil ha fun hmem => hy (List.mem_append_left _ hmem)
    simp

namespace Remote

variable {base region suffix name text : String} {version : Int} {a b : Edition}

/-! ## What may come after the base -/

/-- No `/`, `?` or `#` in `text`, which would end a segment of a path or the path. -/
def InSegment (text : String) : Prop := ∀ mark ∈ ['/', '?', '#'], mark ∉ text.toList

/-- The segment of `version` with the slash after it, or `""` if the version is `0`, which stands
for an unknown one. -/
inductive IsFolder : Int → String → Prop where
  | unknown : IsFolder 0 ""
  | known {version : Int} (hversion : version ≠ 0) (h : InSegment (toString version)) :
      IsFolder version (toString version ++ "/")

/-- One segment `name`, which is not followed as `.` or `..` and stands for `region` and
`suffix`. -/
structure IsFileName (region suffix name : String) : Prop where
  segment : InSegment name
  escaped : Percent.IsEscaped name.toList
  not_dots : Url.isHere name = false ∧ Url.isAbove name = false
  unescape : Percent.unescape name.toList = Percent.bytesOf region ++ Percent.bytesOf suffix

theorem inSegment_of_forall (h : ∀ c ∈ text.toList, Percent.IsUnreserved c ∨ c = '%') :
    InSegment text := by
  intro mark hmark hmem
  simp only [List.mem_cons, List.not_mem_nil, or_false] at hmark
  obtain rfl | rfl | rfl := hmark <;> exact absurd (h _ hmem) (by decide)

/-! ## Folders -/

theorem folder_of_ne (h : version ≠ 0) : folder version = toString version ++ "/" := if_neg h

theorem isUnreserved_of_mem_toString {c : Char} (h : c ∈ (toString version).toList) :
    Percent.IsUnreserved c := by
  rw [Int.toString_eq_repr, Int.repr_eq_if] at h
  have hnat {n : Nat} (h : c ∈ n.repr.toList) : Percent.IsUnreserved c := by
    rw [Nat.repr, String.toList_ofList] at h
    have hdigit : c.isDigit = true := Nat.isDigit_of_mem_toDigits (by decide) le_rfl h
    exact .inl (by rw [Char.isAlphanum, hdigit, Bool.or_true])
  split at h
  · exact hnat h
  · rw [String.toList_append, List.mem_append] at h
    obtain h | h := h
    · obtain rfl : c = '-' := by simpa using h
      decide
    · exact hnat h

theorem isFolder_folder (version : Int) : IsFolder version (folder version) := by
  by_cases h : version = 0
  · subst h
    exact .unknown
  · rw [folder_of_ne h]
    exact .known h (inSegment_of_forall fun _ hc => .inl (isUnreserved_of_mem_toString hc))

theorem IsFolder.eq_nil_or_getLast? (h : IsFolder version text) :
    text.toList = [] ∨ text.toList.getLast? = some '/' := by
  cases h with
  | unknown => exact .inl rfl
  | known => exact .inr (by rw [String.toList_append]; exact List.getLast?_concat)

/-- The version is read off its folder: `IsFolder version text` fixes `version`. -/
theorem IsFolder.version_eq {version' : Int} (h : IsFolder version text)
    (h' : IsFolder version' text) : version = version' := by
  generalize htext : text = text' at h'
  cases h with
  | unknown =>
    cases h' with
    | unknown => rfl
    | known => simp at htext
  | known =>
    cases h' with
    | unknown => simp at htext
    | known => exact Int.repr_inj.mp ((String.append_left_inj _).mp htext)

/-! ## Names of files -/

theorem length_le_of_dots (h : Url.isHere name = true ∨ Url.isAbove name = true) :
    name.length ≤ 6 := by
  have hlength : name.length = name.toLower.length := String.length_map.symm
  rw [hlength]
  simp only [Url.isHere, Url.isAbove, List.contains_iff_mem, List.mem_cons, List.not_mem_nil,
    or_false] at h
  obtain (h | h) | h | h | h | h := h <;> rw [h] <;> decide

/-- The text `Percent.escape region ++ suffix` is a file name: `suffix` does not become part of an
escape, and it is too long for `.` and `..`, escaped (`%2E%2E`) or not. -/
theorem isFileName_escape_append (hsuffix : ∀ c ∈ suffix.toList, Percent.IsUnreserved c)
    (hlength : 6 < suffix.length) (region : String) :
    IsFileName region suffix (Percent.escape region ++ suffix) := by
  have hescaped : Percent.IsEscaped (Percent.escape region ++ suffix).toList := by
    rw [String.toList_append, Percent.toList_escape]
    exact (Percent.isEscaped_escapeBytes _).append (Percent.isEscaped_of_forall hsuffix)
  have hlong : ¬ (Percent.escape region ++ suffix).length ≤ 6 := by
    rw [String.length_append]
    omega
  have hplain : '%' ∉ suffix.toList := fun h => absurd (hsuffix _ h) (by decide)
  refine ⟨inSegment_of_forall fun _ => hescaped.isUnreserved_or_eq, hescaped, ?_, ?_⟩
  · rw [← Bool.not_eq_true, ← Bool.not_eq_true, ← not_or]
    exact fun h => hlong (length_le_of_dots h)
  · rw [String.toList_append, Percent.unescape_escape_append, Percent.unescape_of_notMem hplain,
      Percent.bytesOf_eq suffix]

theorem isFileName_values (region : String) :
    IsFileName region ".traffic" (Percent.escape region ++ valuesExtension) :=
  isFileName_escape_append (by simp [Percent.IsUnreserved]) (by decide) region

theorem isFileName_keys (region : String) : IsFileName region ".traffic.keys"
    (Percent.escape region ++ (valuesExtension ++ keysSuffix)) :=
  isFileName_escape_append (by simp [Percent.IsUnreserved]) (by decide) region

/-! ## Addresses -/

/-- The base with the slash that belongs at its end, as `Remote.ofBase` puts it. -/
def withSlash (base : String) : String := if base.endsWith "/" then base else base ++ "/"

theorem ofBase_eq (h : base ≠ "") : ofBase base = ⟨some (withSlash base)⟩ := by
  rw [ofBase, if_neg (by rwa [String.isEmpty_iff]), withSlash]
  split <;> rfl

theorem getLast?_withSlash (base : String) : (withSlash base).toList.getLast? = some '/' := by
  rw [withSlash]
  split
  · next h =>
    rw [endsWith_slash] at h
    exact beq_iff_eq.mp h
  · rw [String.toList_append]
    exact List.getLast?_concat

theorem valuesUrl?_some (base : String) (edition : Edition) : valuesUrl? ⟨some base⟩ edition =
    some (base ++ folder edition.version ++
      (Percent.escape edition.region ++ valuesExtension)) := by
  rw [valuesUrl?, Option.map_some, ← String.append_assoc]

theorem keysUrl?_some (base : String) (edition : Edition) : keysUrl? ⟨some base⟩ edition =
    some (base ++ folder edition.version ++
      (Percent.escape edition.region ++ (valuesExtension ++ keysSuffix))) := by
  rw [keysUrl?, valuesUrl?_some, Option.map_some]
  simp only [String.append_assoc]

theorem valuesUrl?_inj :
    valuesUrl? ⟨some base⟩ a = valuesUrl? ⟨some base⟩ b ↔ a = b := by
  refine ⟨fun h => ?_, fun h => by rw [h]⟩
  rw [valuesUrl?_some, valuesUrl?_some, Option.some.injEq, String.append_assoc,
    String.append_assoc, String.append_right_inj, ← String.toList_inj, String.toList_append,
    String.toList_append (s := folder b.version)] at h
  have hslash (edition : Edition) :=
    (isFileName_values edition.region).segment '/' List.mem_cons_self
  obtain ⟨hfolder, hname⟩ := append_inj_of_separator (isFolder_folder a.version).eq_nil_or_getLast?
    (isFolder_folder b.version).eq_nil_or_getLast? (hslash a) (hslash b) h
  have hversion : a.version = b.version := (isFolder_folder a.version).version_eq
    (String.toList_inj.mp hfolder ▸ isFolder_folder b.version)
  have hregion : a.region = b.region :=
    Percent.escape_injective ((String.append_left_inj _).mp (String.toList_inj.mp hname))
  cases a
  cases b
  congr

theorem keysUrl?_inj : keysUrl? ⟨some base⟩ a = keysUrl? ⟨some base⟩ b ↔ a = b := by
  have hsuffix : Function.Injective (· ++ keysSuffix) := fun _ _ => (String.append_left_inj _).mp
  exact (Option.map_injective hsuffix).eq_iff.trans valuesUrl?_inj

theorem valuesUrl?_ne_keysUrl? (base : String) (a b : Edition) :
    valuesUrl? ⟨some base⟩ a ≠ keysUrl? ⟨some base⟩ b := by
  intro h
  rw [valuesUrl?_some, keysUrl?_some, Option.some.injEq] at h
  have hlast := congrArg (fun text => text.toList.getLast?) h
  simp [valuesExtension, keysSuffix] at hlast

/-- **One address for each edition.** No two of `valuesUrl?` and `keysUrl?` agree unless they are
for the same data of the same edition. After `withSlash base` comes the folder of the version
(`IsFolder`), and after that the name of one file (`IsFileName`), in which the region is escaped. -/
theorem urls_of_base (hbase : base ≠ "") :
    let server := ofBase base
    (∀ a b, server.valuesUrl? a = server.valuesUrl? b ↔ a = b) ∧
    (∀ a b, server.keysUrl? a = server.keysUrl? b ↔ a = b) ∧
    (∀ a b, server.valuesUrl? a ≠ server.keysUrl? b) ∧
    ∃ root, root = (if base.endsWith "/" then base else base ++ "/") ∧
      root.toList.getLast? = some '/' ∧
      ∀ edition, ∃ folder values keys,
        server.valuesUrl? edition = some (root ++ folder ++ values) ∧
        server.keysUrl? edition = some (root ++ folder ++ keys) ∧
        IsFolder edition.version folder ∧ IsFileName edition.region ".traffic" values ∧
        IsFileName edition.region ".traffic.keys" keys := by
  intro server
  have hserver : server = ⟨some (withSlash base)⟩ := ofBase_eq hbase
  rw [hserver]
  refine ⟨fun _ _ => valuesUrl?_inj, fun _ _ => keysUrl?_inj, valuesUrl?_ne_keysUrl? _,
    withSlash base, rfl, getLast?_withSlash base, fun edition => ?_⟩
  -- The folder is the same for both addresses; the names differ in their suffix.
  exact ⟨_, _, _, valuesUrl?_some _ edition, keysUrl?_some _ edition,
    isFolder_folder edition.version, isFileName_values edition.region,
    isFileName_keys edition.region⟩

/-- A region that looks like a folder (`1/Monaco`), or like the name of a file, is still taken for a
region. -/
theorem urls_of_base_lookalikes :
    let server := ofBase "http://localhost"
    "http://localhost" ≠ "" ∧
    server.valuesUrl? ⟨"1/Monaco", 0⟩ ≠ server.valuesUrl? ⟨"Monaco", 1⟩ ∧
    server.keysUrl? ⟨"%2F", -1⟩ ≠ server.keysUrl? ⟨"/", -1⟩ ∧
    server.valuesUrl? ⟨"Monaco.traffic.keys", 1⟩ ≠ server.keysUrl? ⟨"Monaco", 1⟩ := by
  have hbase : "http://localhost" ≠ "" := by decide
  obtain ⟨hvalues, hkeys, hne, -⟩ := urls_of_base hbase
  exact ⟨hbase, fun h => absurd ((hvalues _ _).mp h) (by decide),
    fun h => absurd ((hkeys _ _).mp h) (by decide), hne _ _⟩

end Remote

end RoadTraffic

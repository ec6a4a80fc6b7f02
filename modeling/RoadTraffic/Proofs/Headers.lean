import Mathlib
import RoadTraffic.Http.Client
import RoadTraffic.Proofs.Text.Utf8

/-!
# Headers of a response

The names of headers come in without capitals and are looked up as they are usually written. No two
names become one on that way, and of the values of one name the last one that can be read counts.

* `Client.capitalize_eq_intercalate`: each part of a name between dashes gets a capital.
* `Client.canonicalName_injective`/`canonicalName_canonicalName`: what that does to names.
* `Incoming.isLowerCase_of_parse?`: names of headers do come in without capitals.
* `Client.getElem?_headers_iff`: `(headers incoming)[canonicalName name]?` is the last value of
  `name` that can be read (`IsLastText`).
* `Client.header?_reply`: the same for `etag`, the header that names the revision.
-/

namespace RoadTraffic

/-- There are no capitals in `name`. -/
def IsLowerCase (name : String) : Prop := ∀ c ∈ name.toList, c.isUpper = false

instance : DecidablePred IsLowerCase := fun name =>
  decidable_of_iff (name.toList.all (!·.isUpper)) (by simp [IsLowerCase])

namespace Client

variable {c : Char} {letters : List Char} {a b name text : String}

/-! ## Names -/

theorem toUpper_eq_dash_iff : c.toUpper = '-' ↔ c = '-' := by
  by_cases hlower : c.isLower = true
  · refine iff_of_false (fun h => ?_) (fun h => ?_)
    · have hupper : c.toUpper.isUpper = true := by
        rw [Char.isUpper_toUpper_eq_isAlpha, Char.isAlpha, hlower, Bool.or_true]
      rw [h] at hupper
      cases hupper
    · rw [h] at hlower
      cases hlower
  · rw [Char.toUpper_eq_of_not_isLower hlower]

/-- A part of a name with a capital in front. -/
def withCapital : List Char → List Char
  | [] => []
  | c :: rest => c.toUpper :: rest

/-- Each part between dashes has a capital, the first one only if it is `atStart`. -/
theorem capitalize_eq_intercalate (atStart : Bool) (letters : List Char) :
    ∃ part parts, letters.splitOn '-' = part :: parts ∧
      capitalize atStart letters = ['-'].intercalate
        ((if atStart then withCapital part else part) :: parts.map withCapital) := by
  induction letters generalizing atStart with
  | nil => exact ⟨[], [], List.splitOn_nil _, by cases atStart <;> rfl⟩
  | cons c rest ih =>
    obtain ⟨part, parts, hsplit, hrest⟩ := ih (c == '-')
    rw [List.splitOn_cons_eq_if_modifyHead, hsplit, capitalize, hrest]
    by_cases hdash : c = '-'
    · subst hdash
      exact ⟨[], part :: parts, rfl, by cases atStart <;> rfl⟩
    · rw [beq_false_of_ne hdash]
      refine ⟨c :: part, parts, rfl, ?_⟩
      cases atStart <;> cases parts <;> rfl

/-- The letters are still there, some of them as capitals: `toLower` undoes `capitalize`. -/
theorem map_toLower_capitalize (atStart : Bool) (letters : List Char) :
    (capitalize atStart letters).map Char.toLower = letters.map Char.toLower := by
  induction letters generalizing atStart with
  | nil => rfl
  | cons c rest ih =>
    rw [capitalize, List.map_cons, List.map_cons, ih]
    cases atStart with
    | true => rw [if_pos rfl, Char.toLower_toUpper_eq_toLower]
    | false => rfl

/-- The function `capitalize` is idempotent: capitals stay, and dashes are neither gained nor
lost. -/
theorem capitalize_capitalize (atStart : Bool) (letters : List Char) :
    capitalize atStart (capitalize atStart letters) = capitalize atStart letters := by
  induction letters generalizing atStart with
  | nil => rfl
  | cons c rest ih =>
    have hdash : (c.toUpper == '-') = (c == '-') := by
      rw [Bool.eq_iff_iff, beq_iff_eq, beq_iff_eq, toUpper_eq_dash_iff]
    cases atStart <;> simp [capitalize, hdash, ih]

/-- A name without capitals can be told from `canonicalName name`, the way it is usually written. -/
theorem toLower_canonicalName (h : IsLowerCase name) :
    (canonicalName name).toList.map Char.toLower = name.toList := by
  rw [canonicalName, String.toList_ofList, map_toLower_capitalize]
  refine (List.map_congr_left fun c hc => ?_).trans (List.map_id _)
  exact Char.toLower_eq_of_not_isUpper (by simp [h c hc])

theorem canonicalName_injective (ha : IsLowerCase a) (hb : IsLowerCase b)
    (h : canonicalName a = canonicalName b) : a = b := by
  rw [← String.toList_inj, ← toLower_canonicalName ha, h, toLower_canonicalName hb]

theorem canonicalName_canonicalName (name : String) :
    canonicalName (canonicalName name) = canonicalName name := by
  rw [canonicalName, canonicalName, String.toList_ofList, capitalize_capitalize]

end Client

namespace Incoming

/-! ## What comes in -/

theorem isLowerCase_of_header? {line : Bytes} {header : String × Bytes}
    (h : header? line = some header) : IsLowerCase header.1 := by
  unfold header? at h
  dsimp only at h
  split at h
  · split at h
    · cases h
      intro c hc
      rw [String.toList_ofList] at hc
      obtain ⟨byte, -, rfl⟩ := List.mem_map.mp hc
      exact Char.isUpper_toLower_eq_false _
    · cases h
  · cases h

theorem isLowerCase_of_mapM_header? {lines : List Bytes} {headers : List (String × Bytes)}
    (h : lines.mapM header? = some headers) : ∀ header ∈ headers, IsLowerCase header.1 := by
  induction lines generalizing headers with
  | nil =>
    cases h
    exact List.forall_mem_nil _
  | cons line lines ih =>
    rw [List.mapM_cons] at h
    obtain ⟨header, hheader, h⟩ := Option.bind_eq_some_iff.mp h
    obtain ⟨others, hothers, h⟩ := Option.bind_eq_some_iff.mp h
    cases h
    exact List.forall_mem_cons.mpr ⟨isLowerCase_of_header? hheader, ih hothers⟩

/-- The names of headers in what `parse?` takes in have no capitals. -/
theorem isLowerCase_of_parse? {bytes : Bytes} {incoming : Incoming}
    (h : parse? bytes = some incoming) : ∀ header ∈ incoming.headers, IsLowerCase header.1 := by
  unfold parse? at h
  generalize bytes.length = fuel at h
  induction fuel generalizing bytes with
  | zero => cases h
  | succ fuel ih =>
    unfold parseFrom at h
    split at h
    · split at h
      · next hheaders =>
        split at h
        · exact ih h
        · obtain ⟨body, -, rfl⟩ := Option.map_eq_some_iff.mp h
          exact isLowerCase_of_mapM_header? hheaders
      · cases h
    · cases h

end Incoming

namespace Client

open Percent (bytesOf)

variable {name text : String} {value : Bytes} {incoming : List (String × Bytes)}

/-! ## Values -/

/-- The value can be read: it has visible ASCII characters, spaces and tabs only. -/
def IsReadable (value : Bytes) : Prop := ∀ byte ∈ value, byte = 9 ∨ 0x20 ≤ byte ∧ byte < 0x7F

/-- The last value of `name` that can be read is `text`. -/
def IsLastText (headers : List (String × Bytes)) (name text : String) : Prop :=
  ∃ before after, headers = before ++ (name, bytesOf text) :: after ∧
    IsReadable (bytesOf text) ∧ ∀ value, (name, value) ∈ after → ¬ IsReadable value

theorem all_isPlain_iff : value.all isPlain = true ↔ IsReadable value := by
  simp [IsReadable, isPlain, or_comm]

/-- A value that can be read is made of the bytes of its text, one for each character. -/
theorem bytesOf_of_isReadable (h : IsReadable value) :
    bytesOf (String.ofList (value.map fun byte => Char.ofNat byte.toNat)) = value := by
  rw [Percent.bytesOf_eq, String.toList_ofList, List.flatMap_map]
  refine (List.flatMap_congr fun byte hbyte => ?_).trans (List.flatMap_singleton' value)
  have hlt : byte.toNat < 0x80 := by
    obtain rfl | ⟨-, hlt⟩ := h byte hbyte
    · decide
    · exact (UInt8.lt_iff_toNat_lt.mp hlt).trans (by decide)
  have hchar : (Char.ofNat byte.toNat).toNat = byte.toNat :=
    Utf8.toNat_ofNat_of_isValidChar (.inl (by omega))
  rw [Utf8.utf8EncodeChar_one (by rw [hchar]; exact hlt), hchar, UInt8.ofNat_toNat]

/-- The reading `plainText?` takes a value that can be read as its text, and no other value. -/
theorem plainText?_eq_some_iff :
    plainText? value = some text ↔ IsReadable value ∧ bytesOf text = value := by
  unfold plainText?
  by_cases h : IsReadable value
  · rw [if_pos (all_isPlain_iff.mpr h), Option.some.injEq]
    constructor
    · rintro rfl
      exact ⟨h, bytesOf_of_isReadable h⟩
    · rintro ⟨-, hbytes⟩
      exact Percent.bytesOf_injective ((bytesOf_of_isReadable h).trans hbytes.symm)
  · rw [if_neg (mt all_isPlain_iff.mp h)]
    exact iff_of_false nofun fun hread => h hread.1

/-! ## Looking headers up -/

theorem headers_concat (incoming : List (String × Bytes)) (other : String) (value : Bytes) :
    headers (incoming ++ [(other, value)]) =
      match plainText? value with
      | some text => (headers incoming).insert (canonicalName other) text
      | none => headers incoming := by
  rw [headers, List.foldl_append]
  rfl

/-- A readable value at the end of the headers is the last one of its `name`. -/
theorem isLastText_concat_self (h : IsReadable value) :
    IsLastText (incoming ++ [(name, value)]) name text ↔ bytesOf text = value := by
  constructor
  · rintro ⟨before, after, hsplit, hread, hafter⟩
    obtain rfl | ⟨after, last, rfl⟩ := List.eq_nil_or_concat after
    · obtain ⟨-, hlast⟩ := List.append_inj' hsplit rfl
      cases hlast
      rfl
    · have hsplit : incoming ++ [(name, value)] =
          (before ++ (name, bytesOf text) :: after) ++ [last] := by simpa using hsplit
      obtain ⟨-, hlast⟩ := List.append_inj' hsplit rfl
      cases hlast
      exact absurd h (hafter value (by simp))
  · rintro rfl
    exact ⟨incoming, [], rfl, h, nofun⟩

/-- Any `other` header at the end makes no difference: it has another name or cannot be read. -/
theorem isLastText_concat {other : String} (h : other = name → ¬ IsReadable value) :
    IsLastText (incoming ++ [(other, value)]) name text ↔ IsLastText incoming name text := by
  constructor
  · rintro ⟨before, after, hsplit, hread, hafter⟩
    obtain rfl | ⟨after, last, rfl⟩ := List.eq_nil_or_concat after
    · obtain ⟨-, hlast⟩ := List.append_inj' hsplit rfl
      cases hlast
      exact absurd hread (h rfl)
    · have hsplit : incoming ++ [(other, value)] =
          (before ++ (name, bytesOf text) :: after) ++ [last] := by simpa using hsplit
      obtain ⟨rfl, -⟩ := List.append_inj' hsplit rfl
      exact ⟨before, after, rfl, hread, fun later hlater => hafter later (by simp [hlater])⟩
  · rintro ⟨before, after, rfl, hread, hafter⟩
    refine ⟨before, after ++ [(other, value)], by rw [List.append_assoc, List.cons_append], hread,
      fun later hlater => ?_⟩
    rcases List.mem_append.mp hlater with hlater | hlater
    · exact hafter later hlater
    · cases List.mem_singleton.mp hlater
      exact h rfl

/-- What is looked up under a `name` is the last value of that name that can be read. -/
theorem getElem?_headers_iff (hnames : ∀ header ∈ incoming, IsLowerCase header.1)
    (hname : IsLowerCase name) :
    (headers incoming)[canonicalName name]? = some text ↔ IsLastText incoming name text := by
  induction incoming using List.reverseRecOn with
  | nil =>
    refine iff_of_false (fun h => ?_) ?_
    · rw [headers, List.foldl_nil, Std.ExtTreeMap.getElem?_empty] at h
      cases h
    · rintro ⟨before, after, hsplit, -⟩
      simp at hsplit
  | append_singleton incoming header ih =>
    obtain ⟨other, value⟩ := header
    rw [List.forall_mem_append, List.forall_mem_singleton] at hnames
    have hrest := ih hnames.1
    rw [headers_concat]
    cases hplain : plainText? value with
    | none =>
      -- A value that cannot be read is left out, whatever its name is.
      have hunreadable : ¬ IsReadable value := fun hread => by
        rw [plainText?_eq_some_iff.mpr ⟨hread, bytesOf_of_isReadable hread⟩] at hplain
        cases hplain
      rw [isLastText_concat fun _ => hunreadable]
      exact hrest
    | some found =>
      obtain ⟨hread, rfl⟩ := plainText?_eq_some_iff.mp hplain
      dsimp only
      -- The last header is put in place of an earlier one only if it has the same name.
      rw [Std.ExtTreeMap.getElem?_insert]
      by_cases heq : other = name
      · subst heq
        rw [if_pos (by simp), isLastText_concat_self hread, Option.some.injEq, eq_comm]
        exact ⟨fun h => h ▸ rfl, fun h => Percent.bytesOf_injective h⟩
      · have hother : canonicalName other ≠ canonicalName name :=
          fun h => heq (canonicalName_injective hnames.2 hname h)
        rw [if_neg (by simpa using hother), isLastText_concat fun h => absurd h heq]
        exact hrest

/-- There is a last value that can be read if there is one at all. -/
theorem exists_isLastText_iff : (∃ text, IsLastText incoming name text) ↔
    ∃ value, (name, value) ∈ incoming ∧ IsReadable value := by
  constructor
  · rintro ⟨text, before, after, rfl, hread, -⟩
    exact ⟨bytesOf text, List.mem_append_right _ List.mem_cons_self, hread⟩
  · rintro ⟨value, hmem, hread⟩
    induction incoming using List.reverseRecOn with
    | nil => cases hmem
    | append_singleton incoming header ih =>
      obtain ⟨other, last⟩ := header
      by_cases hlast : other = name ∧ IsReadable last
      · obtain ⟨rfl, hlast⟩ := hlast
        exact ⟨_, (isLastText_concat_self hlast).mpr (bytesOf_of_isReadable hlast)⟩
      · have hmem : (name, value) ∈ incoming := by
          refine (List.mem_append.mp hmem).resolve_right fun h => hlast ?_
          cases List.mem_singleton.mp h
          exact ⟨rfl, hread⟩
        obtain ⟨text, htext⟩ := ih hmem
        exact ⟨text, (isLastText_concat (not_and.mp hlast)).mpr htext⟩

theorem getElem?_headers_eq_none_iff (hnames : ∀ header ∈ incoming, IsLowerCase header.1)
    (hname : IsLowerCase name) : (headers incoming)[canonicalName name]? = none ↔
      ∀ value, (name, value) ∈ incoming → ¬ IsReadable value := by
  rw [Option.eq_none_iff_forall_ne_some]
  simp only [ne_eq, getElem?_headers_iff hnames hname]
  rw [← not_exists, exists_isLastText_iff]
  simp

/-- **The revision token of a response.** A response that comes in whole has the token that is the
last readable value of the header `etag` (`IsLastText`), and none if there is no such value. No
other header comes under that name, as no two names are written alike: `canonicalName` is injective
on names without capitals, each can be looked up, and under each there is what came in under it. -/
theorem header?_reply {incoming : Incoming} (hcomplete : incoming.complete = true)
    (hnames : ∀ header ∈ incoming.headers, IsLowerCase header.1) (request : Request) (url : Url) :
    ∃ response, reply request url (some incoming) = .ok response ∧
      (∀ text, response.header? revisionHeader = some text ↔
        IsLastText incoming.headers "etag" text) ∧
      (response.header? revisionHeader = none ↔
        ∀ value, ("etag", value) ∈ incoming.headers → ¬ IsReadable value) ∧
      (∀ a b, IsLowerCase a → IsLowerCase b → canonicalName a = canonicalName b → a = b) ∧
      (∀ name, canonicalName (canonicalName name) = canonicalName name) ∧
      ∀ name text, IsLowerCase name →
        (response.header? (canonicalName name) = some text ↔
          IsLastText incoming.headers name text) := by
  have hrevision : revisionHeader = canonicalName "etag" := by decide
  have hlower : IsLowerCase "etag" := by decide
  refine ⟨{ incoming with headers := headers incoming.headers }, by rw [reply, if_pos hcomplete],
    fun text => ?_, ?_, fun a b => canonicalName_injective, canonicalName_canonicalName,
    fun name text hname => getElem?_headers_iff hnames hname⟩
  · rw [hrevision]
    exact getElem?_headers_iff hnames hlower
  · rw [hrevision]
    exact getElem?_headers_eq_none_iff hnames hlower

/-- Two revisions, one that cannot be read after them, and a header of a similar name. -/
theorem header?_reply_repeated :
    let names : List (String × Bytes) :=
      [("etag", bytesOf "rev-1"), ("etag", bytesOf "rev-2"), ("e-tag", bytesOf "rev-3"),
        ("etag", [0xE9])]
    let incoming : Incoming := { status := .ok, headers := names, body := [], complete := true }
    let request : Request := { url := "http://localhost/Monaco.traffic" }
    let url : Url := ⟨"http", some "localhost", "/Monaco.traffic", none, none⟩
    incoming.complete = true ∧ (∀ header ∈ incoming.headers, IsLowerCase header.1) ∧
      ∃ response, reply request url (some incoming) = .ok response ∧
        response.header? revisionHeader = some "rev-2" ∧
        response.header? "E-Tag" = some "rev-3" := by
  intro names incoming request url
  have hlower : ∀ header ∈ incoming.headers, IsLowerCase header.1 := by decide
  have hreadable : IsReadable (bytesOf "rev-2") ∧ IsReadable (bytesOf "rev-3") := by
    constructor <;> exact all_isPlain_iff.mp (by decide +kernel)
  have hunreadable : ¬ IsReadable [0xE9] := fun h => by
    cases all_isPlain_iff.mpr h
  have hname : canonicalName "e-tag" = "E-Tag" := by decide +kernel
  obtain ⟨response, hreply, hrevision, -, -, -, hother⟩ := header?_reply rfl hlower request url
  refine ⟨rfl, hlower, response, hreply, (hrevision "rev-2").mpr
    ⟨names.take 1, names.drop 2, rfl, hreadable.1, fun value hvalue => ?_⟩, ?_⟩
  · obtain rfl : value = [0xE9] := by simpa [names] using hvalue
    exact hunreadable
  · rw [← hname]
    -- The similar name is looked up in its own place.
    refine (hother "e-tag" "rev-3" (by decide)).mpr
      ⟨names.take 2, names.drop 3, rfl, hreadable.2, fun value hvalue => ?_⟩
    simp [names] at hvalue

end Client

end RoadTraffic

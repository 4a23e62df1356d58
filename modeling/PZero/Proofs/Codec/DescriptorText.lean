import Mathlib
import PZero.Bytecode.Descriptor

/-! # The text of a descriptor

A descriptor is read back from its text: no letter of a storage type is the closing
parenthesis, so the parameters end where they were written to end. And nothing but
the text of a descriptor is read as one, which makes the texts that are accepted those
of a small grammar.
-/
namespace PZero.Bytecode.Descriptor

theorem letter_ne_close (ts : List FieldType) :
    ∀ c ∈ ts.map FieldType.letter, (c != ')') = true := by
  intro c hc
  obtain ⟨t, -, rfl⟩ := List.mem_map.mp hc
  cases t <;> rfl

theorem result?_resultLetter (r : Option FieldType) : result? (resultLetter r) = some r := by
  cases r with
  | none => rfl
  | some t => cases t <;> rfl

theorem mapM_ofLetter? (ts : List FieldType) :
    ts.mapM (FieldType.ofLetter? ∘ FieldType.letter) = some ts := by
  induction ts with
  | nil => rfl
  | cons t ts ih => simp [FieldType.ofLetter?_letter, ih]

theorem ofLetters?_letters (d : Descriptor) : ofLetters? d.letters = some d := by
  obtain ⟨parameters, result⟩ := d
  have ht : (parameters.map FieldType.letter ++ [')', resultLetter result]).takeWhile (· != ')') =
      parameters.map FieldType.letter := by
    rw [List.takeWhile_append_of_pos (letter_ne_close parameters)]
    simp
  have hd : (parameters.map FieldType.letter ++ [')', resultLetter result]).dropWhile (· != ')') =
      [')', resultLetter result] := by
    rw [List.dropWhile_append_of_pos (letter_ne_close parameters)]
    simp
  simp only [letters, List.cons_append, ofLetters?, ht, hd]
  simp [mapM_ofLetter?, result?_resultLetter]

/-- The text of a descriptor determines it. -/
theorem parse_text (d : Descriptor) : parse d.text = .ok d := by
  simp [parse, text, ofLetters?_letters]

/-! ## Nothing else is read as a descriptor -/

theorem letter_of_ofLetter? {c : Char} {t : FieldType} (h : FieldType.ofLetter? c = some t) :
    t.letter = c := by
  simpa using List.find?_some h

theorem map_letter_of_mapM {cs : List Char} {ts : List FieldType}
    (h : cs.mapM FieldType.ofLetter? = some ts) : ts.map FieldType.letter = cs := by
  induction cs generalizing ts with
  | nil =>
    cases h
    rfl
  | cons c cs ih =>
    simp only [List.mapM_cons, Option.bind_eq_bind, Option.bind_eq_some_iff] at h
    obtain ⟨t, ht, rest, hrest, heq⟩ := h
    cases heq
    rw [List.map_cons, letter_of_ofLetter? ht, ih hrest]

theorem resultLetter_of_result? {c : Char} {r : Option FieldType} (h : result? c = some r) :
    resultLetter r = c := by
  unfold result? at h
  split at h
  · next hc =>
    cases h
    exact (eq_of_beq hc).symm
  · obtain ⟨t, ht, rfl⟩ := Option.map_eq_some_iff.mp h
    exact letter_of_ofLetter? ht

theorem letters_of_ofLetters? {cs : List Char} {d : Descriptor} (h : ofLetters? cs = some d) :
    d.letters = cs := by
  unfold ofLetters? at h
  split at h
  · next rest =>
    split at h
    · next close r hdrop =>
      simp only [Option.bind_eq_bind, Option.bind_eq_some_iff] at h
      obtain ⟨parameters, hparameters, result, hresult, heq⟩ := h
      cases heq
      have hclose : close = ')' := by
        have hhead := List.head?_dropWhile_not (· != ')') rest
        rw [hdrop] at hhead
        simpa using hhead
      calc letters ⟨parameters, result⟩
        _ = '(' :: (rest.takeWhile (· != ')') ++ [')', r]) := by
          rw [letters, List.cons_append, map_letter_of_mapM hparameters,
            resultLetter_of_result? hresult]
        _ = '(' :: (rest.takeWhile (· != ')') ++ rest.dropWhile (· != ')')) := by
          rw [hdrop, hclose]
        _ = '(' :: rest := by rw [List.takeWhile_append_dropWhile]
    · cases h
  · cases h

/-- A text that is read as a descriptor is its text. -/
theorem text_of_parse {s : String} {d : Descriptor} (h : parse s = .ok d) : d.text = s := by
  unfold parse at h
  split at h
  · next d' hd =>
    cases h
    rw [text, letters_of_ofLetters? hd, String.ofList_toList]
  · cases h

theorem text_inj {d d' : Descriptor} (h : d'.text = d.text) : d' = d := by
  have hparse := parse_text d'
  rw [h, parse_text d] at hparse
  exact (Except.ok.inj hparse).symm

/-! ## The grammar -/

/-- Letters of parameters in parentheses, and one letter behind them. -/
def Spelled (cs : List Char) : Prop :=
  ∃ parameters r, cs = '(' :: parameters ++ [')', r] ∧
    (∀ c ∈ parameters, c ∈ ['I', 'F', 'Z', 'S']) ∧ r ∈ ['I', 'F', 'Z', 'S', 'V']

theorem letter_mem (t : FieldType) : t.letter ∈ ['I', 'F', 'Z', 'S'] := by
  cases t <;> decide

theorem exists_letter {c : Char} (h : c ∈ ['I', 'F', 'Z', 'S']) :
    ∃ t : FieldType, t.letter = c := by
  simp only [List.mem_cons, List.not_mem_nil, or_false] at h
  obtain rfl | rfl | rfl | rfl := h
  · exact ⟨.int, rfl⟩
  · exact ⟨.float, rfl⟩
  · exact ⟨.bool, rfl⟩
  · exact ⟨.string, rfl⟩

theorem resultLetter_mem (r : Option FieldType) :
    resultLetter r ∈ ['I', 'F', 'Z', 'S', 'V'] := by
  cases r with
  | none => decide
  | some t => exact List.mem_append_left ['V'] (letter_mem t)

theorem exists_resultLetter {c : Char} (h : c ∈ ['I', 'F', 'Z', 'S', 'V']) :
    ∃ r, resultLetter r = c := by
  rcases List.mem_append.mp (show c ∈ ['I', 'F', 'Z', 'S'] ++ ['V'] from h) with ht | hv
  · obtain ⟨t, ht⟩ := exists_letter ht
    exact ⟨some t, ht⟩
  · exact ⟨none, (List.mem_singleton.mp hv).symm⟩

theorem exists_map_letter {cs : List Char} (h : ∀ c ∈ cs, c ∈ ['I', 'F', 'Z', 'S']) :
    ∃ ts : List FieldType, ts.map FieldType.letter = cs := by
  have hrange : cs ∈ Set.range (List.map FieldType.letter) := by
    rw [Set.range_list_map]
    exact fun c hc => exists_letter (h c hc)
  exact hrange

/-- What is spelled like that is the text of a descriptor, and the other way round. -/
theorem spelled_iff {cs : List Char} : Spelled cs ↔ ∃ d : Descriptor, d.letters = cs := by
  constructor
  · rintro ⟨parameters, r, rfl, hparameters, hr⟩
    obtain ⟨ts, rfl⟩ := exists_map_letter hparameters
    obtain ⟨result, rfl⟩ := exists_resultLetter hr
    exact ⟨⟨ts, result⟩, rfl⟩
  · rintro ⟨d, rfl⟩
    refine ⟨_, _, rfl, fun c hc => ?_, resultLetter_mem d.result⟩
    obtain ⟨t, -, rfl⟩ := List.mem_map.mp hc
    exact letter_mem t

theorem parse_succeeds_iff {s : String} : (∃ d, parse s = .ok d) ↔ Spelled s.toList := by
  rw [spelled_iff]
  constructor
  · rintro ⟨d, hd⟩
    exact ⟨d, by rw [← text_of_parse hd, text, String.toList_ofList]⟩
  · rintro ⟨d, hd⟩
    have htext : d.text = s := by rw [text, hd, String.ofList_toList]
    exact ⟨d, htext ▸ parse_text d⟩

theorem parse_eq_error {s : String} (h : ¬ Spelled s.toList) :
    parse s = .error (.invalidDescriptor s) := by
  cases hparse : parse s with
  | ok d => exact absurd (parse_succeeds_iff.mp ⟨d, hparse⟩) h
  | error e =>
    unfold parse at hparse
    split at hparse
    · cases hparse
    · cases hparse
      rfl

/-- The descriptors and the texts of the grammar are the same thing, and every other text is
refused as it is. -/
theorem parse_exact (s : String) :
    ((∃ d, parse s = .ok d) ↔ Spelled s.toList) ∧
    (∀ d, parse s = .ok d → d.text = s ∧ ∀ d' : Descriptor, d'.text = s → d' = d) ∧
    (∀ d : Descriptor, parse d.text = .ok d) ∧
    (¬ Spelled s.toList → parse s = .error (.invalidDescriptor s)) := by
  refine ⟨parse_succeeds_iff, fun d hd => ⟨text_of_parse hd, fun d' hd' => ?_⟩, parse_text,
    parse_eq_error⟩
  exact text_inj (hd'.trans (text_of_parse hd).symm)

/-- Three parameters and no result; and a `V` in the place of a parameter. -/
theorem parse_exact_void :
    Spelled "(FZS)V".toList ∧ ¬ Spelled "(V)I".toList ∧
      (∀ d : Descriptor, d.text = "(FZS)V" → d = ⟨[.float, .bool, .string], none⟩) ∧
      parse "(V)I" = .error (.invalidDescriptor "(V)I") := by
  obtain ⟨haccepted, hunique, -, -⟩ := parse_exact "(FZS)V"
  obtain ⟨hrefused, -, -, herror⟩ := parse_exact "(V)I"
  have hok : parse "(FZS)V" = .ok ⟨[.float, .bool, .string], none⟩ := by cbv
  have hnot : ¬ Spelled "(V)I".toList := fun h => by
    obtain ⟨d, hd⟩ := hrefused.mpr h
    have hv : parse "(V)I" = .error (.invalidDescriptor "(V)I") := by cbv
    cases hv.symm.trans hd
  exact ⟨haccepted.mp ⟨_, hok⟩, hnot, (hunique _ hok).2, herror hnot⟩

end PZero.Bytecode.Descriptor

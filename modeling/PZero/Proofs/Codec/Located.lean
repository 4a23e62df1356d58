import PZero.Proofs.Codec.Exact

/-! # Where bytes go wrong

What a reader refuses, it refuses for the bytes up to the one that it points at, whatever
follows them; and where the input ends too early it would have gone on with more bytes.
Both are kept when readers are put behind one another, so they hold of a whole module.
-/
namespace PZero.Bytecode
namespace Codec
variable {α β : Type}

/-! ## The end of the input -/

theorem take_of_lt {n : Nat} {c : Cursor} (h : c.rest.length < n) :
    take n c = .error (.unexpectedEnd c.offset) := by
  have hshort : (c.rest.take n).length ≠ n := by
    rw [List.length_take]
    omega
  exact if_neg hshort

theorem take_of_le {n : Nat} {c : Cursor} (h : n ≤ c.rest.length) :
    take n c = .ok (c.rest.take n, ⟨c.offset + n, c.rest.drop n⟩) :=
  if_pos (List.length_take_of_le h)

/-- The input has not ended at an offset: either what is left begins behind it, or something else is
wrong. -/
def GetsPast (k : Nat) : Except Error (α × Cursor) → Prop
  | .ok (_, c) => k < c.offset
  | .error e => e ≠ .unexpectedEnd k

/-- Behind these bytes `read` needs as many more bytes as are given, whatever they are. -/
def NeedsMore (read : Reader α) (offset : Nat) (bytes : Bytes) (n : Nat) : Prop :=
  ∀ rest, (rest.length < n →
      read ⟨offset, bytes ++ rest⟩ = .error (.unexpectedEnd (offset + bytes.length))) ∧
    (n ≤ rest.length → GetsPast (offset + bytes.length) (read ⟨offset, bytes ++ rest⟩))

/-- Where the input ends too early, it has fewer bytes left than are needed next. -/
structure Ends (read : Reader α) : Prop extends Delimited read where
  needsMore : ∀ {c : Cursor} {k : Nat}, read c = .error (.unexpectedEnd k) → ∃ bytes r n,
    c.rest = bytes ++ r ∧ k = c.offset + bytes.length ∧ r.length < n ∧
      NeedsMore read c.offset bytes n

namespace Ends
variable {read : Reader α} {next : α → Reader β}

theorem getsPast (h : Ends read) {k : Nat} {c : Cursor} (hk : k < c.offset) :
    GetsPast k (read c) := by
  cases hread : read c with
  | error e =>
    rintro rfl
    obtain ⟨bytes, -, -, -, rfl, -⟩ := h.needsMore hread
    omega
  | ok p =>
    obtain ⟨a, c'⟩ := p
    obtain ⟨bytes, -, hoffset, -⟩ := h.consumed hread
    change k < c'.offset
    omega

/-- A reader that consumes nothing has no need of more bytes. -/
theorem of_delimited (h : Delimited read) (hne : ∀ c k, read c ≠ .error (.unexpectedEnd k)) :
    Ends read :=
  { h with needsMore := fun hread => absurd hread (hne _ _) }

theorem pure (a : α) : Ends (pure a : Reader α) := of_delimited (.pure a) nofun

theorem throw {e : Error} (he : ∀ count, e ≠ .trailingBytes count)
    (he' : ∀ k, e ≠ .unexpectedEnd k) : Ends (throw e : Reader α) :=
  of_delimited (.throw he) fun _ k h => he' k (Except.error.inj h)

theorem offset : Ends offset := of_delimited .offset nofun

theorem take (n : Nat) : Ends (take n) where
  toDelimited := .take n
  needsMore {c k} h := by
    rcases Nat.lt_or_ge c.rest.length n with hlt | hge
    · rw [take_of_lt hlt] at h
      cases h
      refine ⟨[], c.rest, n, rfl, rfl, hlt, fun rest => ⟨fun hlt => take_of_lt hlt, fun hle => ?_⟩⟩
      rw [List.nil_append, take_of_le hle]
      change c.offset < c.offset + n
      omega
    · rw [take_of_le hge] at h
      cases h

/-- Readers behind one another. The end is reached in the part of the first one or in that of the
second one. -/
theorem bind (hr : Ends read) (hn : ∀ a, Ends (next a)) : Ends (read >>= next) where
  toDelimited := hr.toDelimited.bind fun a => (hn a).toDelimited
  needsMore {c k} h := by
    rw [run_bind] at h
    cases hread : read c with
    | error e =>
      rw [hread] at h
      cases h
      obtain ⟨bytes, r, n, hrest, rfl, hlt, hneeds⟩ := hr.needsMore hread
      refine ⟨bytes, r, n, hrest, rfl, hlt, fun rest => ?_⟩
      obtain ⟨hshort, hlong⟩ := hneeds rest
      rw [run_bind]
      refine ⟨fun hlt => by rw [hshort hlt]; rfl, fun hle => ?_⟩
      have hpast := hlong hle
      cases hread' : read ⟨c.offset, bytes ++ rest⟩ with
      | error e => rw [hread'] at hpast; exact hpast
      | ok p => rw [hread'] at hpast; exact (hn p.1).getsPast hpast
    | ok p =>
      obtain ⟨a, c'⟩ := p
      rw [hread] at h
      obtain ⟨l, hl, hoffset, hreads⟩ := hr.consumed hread
      obtain ⟨bytes, r, n, hrest, rfl, hlt, hneeds⟩ := (hn a).needsMore h
      rw [hoffset] at hneeds ⊢
      have hlength : c.offset + l.length + bytes.length = c.offset + (l ++ bytes).length := by
        rw [List.length_append, Nat.add_assoc]
      refine ⟨l ++ bytes, r, n, by rw [hl, hrest, List.append_assoc], hlength, hlt, fun rest => ?_⟩
      have hrun : (read >>= next) ⟨c.offset, l ++ bytes ++ rest⟩ =
          next a ⟨c.offset + l.length, bytes ++ rest⟩ := by
        rw [run_bind, List.append_assoc, hreads]
        rfl
      rw [hrun, ← hlength]
      exact hneeds rest

theorem map (hr : Ends read) (f : α → β) : Ends (do return f (← read)) :=
  hr.bind fun _ => pure _

end Ends

/-! ## What is pointed at -/

/-- From an offset on, `read` fails on these bytes, whatever follows them. -/
def FailsAt (read : Reader α) (offset : Nat) (bytes : Bytes) (e : Error) : Prop :=
  ∀ rest, read ⟨offset, bytes ++ rest⟩ = .error e

/-- Bytes from an offset on show at their end what an error complains about: the byte that is
reported, or the length of a text and bytes of this length that are no text. -/
def Shows (offset : Nat) (bytes : Bytes) : Error → Prop
  | .unknownOpcode byte k | .invalidTag _ byte k =>
    ∃ l, bytes = l ++ [byte] ∧ k = offset + l.length
  | .invalidText k => ∃ l, ∃ n : UInt32, ∃ text, bytes = l ++ ofUInt32 n ++ text ∧
      k = offset + (l ++ ofUInt32 n).length ∧ text.length = n.toNat ∧
      ∀ s : String, s.toUTF8.data.toList ≠ text
  | _ => True

theorem Shows.behind {offset : Nat} {used bytes : Bytes} {e : Error}
    (h : Shows (offset + used.length) bytes e) : Shows offset (used ++ bytes) e := by
  cases e with
  | unknownOpcode | invalidTag =>
    obtain ⟨l, rfl, rfl⟩ := h
    exact ⟨used ++ l, by rw [List.append_assoc], by rw [List.length_append, Nat.add_assoc]⟩
  | invalidText =>
    obtain ⟨l, n, text, rfl, rfl, hlength, htext⟩ := h
    refine ⟨used ++ l, n, text, by simp only [List.append_assoc], ?_, hlength, htext⟩
    simp only [List.length_append, Nat.add_assoc]
  | _ => trivial

/-- A failure other than the end of the input is decided by the bytes up to what it points at. -/
structure Located (read : Reader α) : Prop extends Ends read where
  shows : ∀ {c : Cursor} {e : Error}, read c = .error e → (∀ k, e ≠ .unexpectedEnd k) →
    ∃ bytes r, c.rest = bytes ++ r ∧ Shows c.offset bytes e ∧ FailsAt read c.offset bytes e

namespace Located
variable {read : Reader α} {next : α → Reader β}

/-- A reader that only fails at the end of the input. -/
theorem of_ends (h : Ends read) (hend : ∀ c e, read c = .error e → ∃ k, e = .unexpectedEnd k) :
    Located read :=
  { h with
    shows := fun hread hne => by
      obtain ⟨k, rfl⟩ := hend _ _ hread
      exact absurd rfl (hne k) }

theorem pure (a : α) : Located (pure a : Reader α) := of_ends (.pure a) nofun

theorem throw {e : Error} (he : ∀ count, e ≠ .trailingBytes count)
    (he' : ∀ k, e ≠ .unexpectedEnd k) (hshows : ∀ offset, Shows offset [] e) :
    Located (throw e : Reader α) :=
  { Ends.throw he he' with
    shows := fun {c e'} hread _ => by
      cases hread
      exact ⟨[], c.rest, rfl, hshows c.offset, fun _ => rfl⟩ }

theorem take (n : Nat) : Located (take n) := by
  refine of_ends (.take n) fun c e h => ?_
  simp only [Codec.take] at h
  split at h
  · cases h
  · cases h
    exact ⟨c.offset, rfl⟩

/-- Readers behind one another. What is wrong is in the part of the first one, or it is found by the
second one, which may point at what the first one consumed. -/
theorem bind_of (hr : Located read) (hends : ∀ a, Ends (next a))
    (hn : ∀ {offset l a rest e}, ReadsAt read offset l a →
      next a ⟨offset + l.length, rest⟩ = .error e → (∀ k, e ≠ .unexpectedEnd k) →
      ∃ bytes r, rest = bytes ++ r ∧ Shows offset (l ++ bytes) e ∧
        FailsAt (next a) (offset + l.length) bytes e) : Located (read >>= next) :=
  { hr.toEnds.bind hends with
    shows := fun {c e} h hne => by
      rw [run_bind] at h
      cases hread : read c with
      | error e' =>
        rw [hread] at h
        cases h
        obtain ⟨bytes, r, hrest, hshows, hfails⟩ := hr.shows hread hne
        refine ⟨bytes, r, hrest, hshows, fun rest => ?_⟩
        rw [run_bind, hfails rest]
        rfl
      | ok p =>
        obtain ⟨a, offset', rest'⟩ := p
        rw [hread] at h
        obtain ⟨l, hl, rfl, hreads⟩ := hr.consumed hread
        obtain ⟨bytes, r, rfl, hshows, hfails⟩ := hn hreads h hne
        refine ⟨l ++ bytes, r, by rw [hl, List.append_assoc], hshows, fun rest => ?_⟩
        rw [run_bind, List.append_assoc, hreads]
        exact hfails rest }

theorem bind (hr : Located read) (hn : ∀ a, Located (next a)) : Located (read >>= next) :=
  hr.bind_of (fun a => (hn a).toEnds) fun {_ _ a _ _} _ h hne => by
    obtain ⟨bytes, r, hrest, hshows, hfails⟩ := (hn a).shows h hne
    exact ⟨bytes, r, hrest, hshows.behind, hfails⟩

theorem map (hr : Located read) (f : α → β) : Located (do return f (← read)) :=
  hr.bind fun _ => pure _

end Located

/-! ## The parts of a module -/

theorem selected_nil (select : UInt8 → Option α) (error : UInt8 → Nat → Error) (offset : Nat) :
    selected select error ⟨offset, []⟩ = .error (.unexpectedEnd offset) := rfl

theorem selected_cons (select : UInt8 → Option α) (error : UInt8 → Nat → Error) (offset : Nat)
    (byte : UInt8) (rest : Bytes) : selected select error ⟨offset, byte :: rest⟩ =
      match select byte with
      | some a => .ok (a, ⟨offset + 1, rest⟩)
      | none => .error (error byte offset) := by
  change (match select byte with
    | some a => pure a
    | none => throw (error byte offset) : Reader α) ⟨offset + 1, rest⟩ = _
  cases select byte <;> rfl

theorem located_selected {select : UInt8 → Option α} {error : UInt8 → Nat → Error}
    (htrailing : ∀ byte k count, error byte k ≠ .trailingBytes count)
    (hend : ∀ byte k k', error byte k ≠ .unexpectedEnd k')
    (hshows : ∀ byte k, Shows k [byte] (error byte k)) : Located (selected select error) := by
  have hends : Ends (selected select error) := by
    refine Ends.offset.bind fun start => ((Ends.take 1).map _).bind fun byte => ?_
    split
    · exact .pure _
    · exact .throw (htrailing byte start) (hend byte start)
  refine { hends with shows := fun {c e} h hne => ?_ }
  obtain ⟨offset, bytes⟩ := c
  cases bytes with
  | nil =>
    rw [selected_nil] at h
    cases h
    exact absurd rfl (hne offset)
  | cons byte rest =>
    rw [selected_cons] at h
    cases hselect : select byte with
    | some a =>
      rw [hselect] at h
      cases h
    | none =>
      rw [hselect] at h
      cases h
      refine ⟨[byte], rest, rfl, hshows byte offset, fun rest => ?_⟩
      rw [List.singleton_append, selected_cons, hselect]

/-- A text behind its length. -/
def text (length : UInt32) : Reader String := do
  let start ← offset
  let bytes ← take length.toNat
  match String.fromUTF8? ⟨bytes.toArray⟩ with
  | some s => return s
  | none => throw (.invalidText start)

theorem string_eq : string = uint32 >>= text := by
  unfold string text
  congr

theorem ends_text (length : UInt32) : Ends (text length) := by
  refine Ends.offset.bind fun start => (Ends.take _).bind fun bytes => ?_
  split
  · exact .pure _
  · exact .throw nofun nofun

theorem ne_of_fromUTF8?_none {bytes : Bytes} (h : String.fromUTF8? ⟨bytes.toArray⟩ = none)
    (s : String) : s.toUTF8.data.toList ≠ bytes := by
  rintro rfl
  rw [fromUTF8?_bytes] at h
  cases h

theorem run_text (length : UInt32) (c : Cursor) : text length c =
    (take length.toNat >>= fun bytes => match String.fromUTF8? ⟨bytes.toArray⟩ with
      | some s => (return s : Reader String)
      | none => throw (.invalidText c.offset)) c := rfl

theorem text_of_lt {length : UInt32} {c : Cursor} (h : c.rest.length < length.toNat) :
    text length c = .error (.unexpectedEnd c.offset) := by
  rw [run_text, run_bind, take_of_lt h]
  rfl

theorem text_of_le {length : UInt32} {c : Cursor} (h : length.toNat ≤ c.rest.length) :
    text length c = match String.fromUTF8? ⟨(c.rest.take length.toNat).toArray⟩ with
      | some s => .ok (s, ⟨c.offset + length.toNat, c.rest.drop length.toNat⟩)
      | none => .error (.invalidText c.offset) := by
  rw [run_text, run_bind, take_of_le h]
  dsimp only [Except.bind]
  cases String.fromUTF8? ⟨(c.rest.take length.toNat).toArray⟩ <;> rfl

/-- A text is refused for its own bytes. -/
theorem fails_text {length : UInt32} {c : Cursor} {e : Error} (h : text length c = .error e)
    (hne : ∀ k, e ≠ .unexpectedEnd k) : ∃ bytes r, c.rest = bytes ++ r ∧ e = .invalidText c.offset ∧
      bytes.length = length.toNat ∧ (∀ s : String, s.toUTF8.data.toList ≠ bytes) ∧
      FailsAt (text length) c.offset bytes e := by
  rcases Nat.lt_or_ge c.rest.length length.toNat with hlt | hge
  · rw [text_of_lt hlt] at h
    cases h
    exact absurd rfl (hne c.offset)
  · rw [text_of_le hge] at h
    cases hdecode : String.fromUTF8? ⟨(c.rest.take length.toNat).toArray⟩ with
    | some s =>
      rw [hdecode] at h
      cases h
    | none =>
      rw [hdecode] at h
      cases h
      have hlength := List.length_take_of_le hge
      refine ⟨c.rest.take length.toNat, c.rest.drop length.toNat,
        (List.take_append_drop length.toNat c.rest).symm, rfl, hlength, ne_of_fromUTF8?_none hdecode,
        fun rest => ?_⟩
      generalize c.rest.take length.toNat = bytes at hlength hdecode
      have htake : (bytes ++ rest).take length.toNat = bytes := hlength ▸ List.take_left
      rw [text_of_le (by rw [List.length_append]; omega)]
      dsimp only
      rw [htake, hdecode]

theorem located_string : Located string := by
  rw [string_eq]
  have hlength : Located uint32 := (Located.take 4).map _
  refine hlength.bind_of ends_text fun {offset l length rest e} hl h hne => ?_
  obtain ⟨bytes, r, rfl, rfl, htake, hinvalid, hfails⟩ := fails_text h hne
  refine ⟨bytes, r, rfl, ⟨[], length, bytes, ?_, ?_, htake, hinvalid⟩, hfails⟩
  · rw [bytes_of_uint32 hl, List.nil_append]
  · rw [bytes_of_uint32 hl, List.nil_append]

theorem located : Compositional @Located where
  pure := .pure
  bind := .bind
  take := .take
  string := located_string
  fieldType := fieldType_eq ▸ located_selected nofun nofun fun _ _ => ⟨[], rfl, rfl⟩
  condition := condition_eq ▸ located_selected nofun nofun fun _ _ => ⟨[], rfl, rfl⟩
  opcode := located_selected nofun nofun fun _ _ => ⟨[], rfl, rfl⟩
  invalidDescriptor _ := .throw nofun nofun fun _ => trivial
  unsupportedVersion _ := .throw nofun nofun fun _ => trivial

end Codec

open Codec

/-! ## Whole modules -/

theorem decode_of_contents_error {tail : Bytes} {e : Error}
    (h : contents ⟨magic.length, tail⟩ = .error e) : Module.decode (magic ++ tail) = .error e := by
  rw [decode_magic_append, h]
  rfl

/-- Besides the magic and what follows a module, everything that can be wrong is so in between. -/
theorem contents_of_decode_error {b : Bytes} {e : Error} (h : Module.decode b = .error e)
    (hmagic : e ≠ .badMagic) (htrailing : ∀ count, e ≠ .trailingBytes count) :
    ∃ tail, b = magic ++ tail ∧ contents ⟨magic.length, tail⟩ = .error e := by
  rcases magic_prefix_or_badMagic b with ⟨tail, rfl⟩ | hbad
  · refine ⟨tail, rfl, ?_⟩
    rw [decode_magic_append] at h
    cases hc : contents ⟨magic.length, tail⟩ with
    | error e' =>
      rw [hc] at h
      cases h
      rfl
    | ok p =>
      simp only [hc, Except.bind] at h
      split at h
      · cases h
      · cases h
        exact absurd rfl (htrailing _)
  · rw [hbad] at h
    cases h
    exact absurd rfl hmagic

/-- All that begins with the first `k` bytes of `b` is refused with an error. -/
def FailsBy (b : Bytes) (k : Nat) (e : Error) : Prop :=
  ∀ b' : Bytes, b'.take k = b.take k → Module.decode b' = .error e

/-- What is refused before its end begins with bytes that show why. -/
theorem shows_of_decode_error {b : Bytes} {e : Error} (h : Module.decode b = .error e)
    (hmagic : e ≠ .badMagic) (htrailing : ∀ count, e ≠ .trailingBytes count)
    (hend : ∀ k, e ≠ .unexpectedEnd k) : ∃ bytes r, b = magic ++ bytes ++ r ∧
      Shows magic.length bytes e ∧ FailsBy b (magic.length + bytes.length) e := by
  obtain ⟨tail, rfl, hcontents⟩ := contents_of_decode_error h hmagic htrailing
  obtain ⟨bytes, r, htail, hshows, hfails⟩ := located.contents.shows hcontents hend
  obtain rfl : tail = bytes ++ r := htail
  refine ⟨bytes, r, (List.append_assoc ..).symm, hshows, fun b' hb' => ?_⟩
  rw [← List.append_assoc, ← List.length_append, List.take_left] at hb'
  obtain ⟨rest, rfl⟩ := List.prefix_iff_eq_take.mpr hb'.symm
  rw [List.append_assoc]
  exact decode_of_contents_error (hfails rest)

/-- The byte that an error reports is at its offset, and nothing behind it matters. -/
theorem fails_at_byte {b l r : Bytes} {byte : UInt8} {k : Nat} {e : Error}
    (hb : b = magic ++ (l ++ [byte]) ++ r) (hk : k = magic.length + l.length)
    (hfails : FailsBy b (magic.length + (l ++ [byte]).length) e) :
    5 ≤ k ∧ k < b.length ∧ b[k]? = some byte ∧ FailsBy b (k + 1) e := by
  have hle : 5 ≤ k := hk ▸ Nat.le_add_right magic.length l.length
  have hsplit : b = (magic ++ l) ++ byte :: r := by
    rw [hb]
    simp only [List.append_assoc, List.singleton_append]
  have hlength : (magic ++ l).length = k := by rw [List.length_append, hk]
  have hbyte : b[k]? = some byte := by
    rw [hsplit, ← hlength, List.getElem?_append_right (Nat.le_refl _), Nat.sub_self,
      List.getElem?_cons_zero]
  rw [List.length_append, ← Nat.add_assoc, ← hk] at hfails
  exact ⟨hle, (List.getElem?_eq_some_iff.mp hbyte).1, hbyte, hfails⟩

/-- The text at the offset of an error follows its length, and nothing behind it matters. -/
theorem fails_at_text {b l text r : Bytes} {n : UInt32} {k : Nat} {e : Error}
    (hb : b = magic ++ (l ++ ofUInt32 n ++ text) ++ r)
    (hk : k = magic.length + (l ++ ofUInt32 n).length) (htext : text.length = n.toNat)
    (hfails : FailsBy b (magic.length + (l ++ ofUInt32 n ++ text).length) e) :
    9 ≤ k ∧ (b.take k).drop (k - 4) = ofUInt32 n ∧ k + n.toNat ≤ b.length ∧
      (b.drop k).take n.toNat = text ∧ FailsBy b (k + n.toNat) e := by
  have hfour : (ofUInt32 n).length = 4 := rfl
  have hmagic : magic.length = 5 := rfl
  have hsplit : b = (magic ++ l ++ ofUInt32 n) ++ (text ++ r) := by
    rw [hb]
    simp only [List.append_assoc]
  have hlength : (magic ++ l ++ ofUInt32 n).length = k := by
    rw [List.append_assoc, List.length_append, hk]
  have hbefore : (magic ++ l).length = k - 4 := by
    rw [List.length_append] at hlength
    omega
  have htake : b.take k = magic ++ l ++ ofUInt32 n := by rw [hsplit, ← hlength, List.take_left]
  have hdrop : b.drop k = text ++ r := by rw [hsplit, ← hlength, List.drop_left]
  rw [List.length_append, htext, ← Nat.add_assoc, ← hk] at hfails
  refine ⟨?_, ?_, ?_, ?_, hfails⟩
  · rw [List.length_append] at hk
    omega
  · rw [htake, ← hbefore, List.drop_left]
  · rw [hsplit, List.length_append, hlength, List.length_append, htext]
    omega
  · rw [hdrop, ← htext, List.take_left]

/-- At the offset of a missing end bytes are needed, and only when they are there is it passed. -/
theorem fails_at_end {bytes : Bytes} {n : Nat}
    (hneeds : NeedsMore contents magic.length bytes n) {b' : Bytes} (hb' : magic ++ bytes <+: b') :
    let e := Error.unexpectedEnd (magic.length + bytes.length)
    (b'.length < magic.length + bytes.length + n → Module.decode b' = .error e) ∧
      (magic.length + bytes.length + n ≤ b'.length → Module.decode b' ≠ .error e) := by
  intro e
  obtain ⟨rest, rfl⟩ := hb'
  obtain ⟨hshort, hlong⟩ := hneeds rest
  rw [List.append_assoc, List.length_append, List.length_append]
  refine ⟨fun hlt => decode_of_contents_error (hshort (by omega)), fun hle hdecode => ?_⟩
  obtain ⟨tail, htail, hcontents⟩ := contents_of_decode_error hdecode nofun nofun
  obtain rfl := List.append_cancel_left htail
  have hpast := hlong (by omega)
  rw [hcontents] at hpast
  exact hpast rfl

/-- An error points at what is wrong, and what comes after it has no part in it. An unknown opcode
or tag is the byte at the offset. At the offset of a text its length ends and bytes of this length
begin that are no text. At the offset of a missing end bytes are needed that are not all there:
with too few of them the error stays the same, and with enough of them it does not occur. -/
theorem error_located {b : Bytes} {e : Error} (h : Module.decode b = .error e) :
    (∀ byte k, e = .unknownOpcode byte k ∨ (∃ what, e = .invalidTag what byte k) →
      5 ≤ k ∧ k < b.length ∧ b[k]? = some byte ∧ FailsBy b (k + 1) e) ∧
    (∀ k, e = .invalidText k → ∃ n : UInt32, 9 ≤ k ∧ (b.take k).drop (k - 4) = ofUInt32 n ∧
      k + n.toNat ≤ b.length ∧ (∀ s : String, s.toUTF8.data.toList ≠ (b.drop k).take n.toNat) ∧
      FailsBy b (k + n.toNat) e) ∧
    ∀ k, e = .unexpectedEnd k → 5 ≤ k ∧ k ≤ b.length ∧ ∃ n, b.length < k + n ∧
      ∀ b', b <+: b' → (b'.length < k + n → Module.decode b' = .error e) ∧
        (k + n ≤ b'.length → Module.decode b' ≠ .error e) := by
  refine ⟨fun byte k he => ?_, fun k he => ?_, fun k he => ?_⟩
  · rcases he with rfl | ⟨what, rfl⟩ <;>
    · obtain ⟨_, r, hb, ⟨l, rfl, hk⟩, hfails⟩ := shows_of_decode_error h nofun nofun nofun
      exact fails_at_byte hb hk hfails
  · subst he
    obtain ⟨_, r, hb, ⟨l, n, text, rfl, hk, htext, hinvalid⟩, hfails⟩ :=
      shows_of_decode_error h nofun nofun nofun
    obtain ⟨hle, hlength, hwithin, rfl, hfails'⟩ := fails_at_text hb hk htext hfails
    exact ⟨n, hle, hlength, hwithin, hinvalid, hfails'⟩
  · subst he
    obtain ⟨tail, rfl, hcontents⟩ := contents_of_decode_error h nofun nofun
    obtain ⟨bytes, r, n, htail, rfl, hlt, hneeds⟩ := located.contents.needsMore hcontents
    obtain rfl : tail = bytes ++ r := htail
    have hlength : (magic ++ (bytes ++ r)).length = magic.length + bytes.length + r.length := by
      rw [List.length_append, List.length_append, Nat.add_assoc]
    refine ⟨Nat.le_add_right magic.length _, hlength ▸ Nat.le_add_right _ _, n, ?_, fun b' hb' => ?_⟩
    · rw [hlength]
      exact Nat.add_lt_add_left hlt _
    · rw [← List.append_assoc] at hb'
      exact fails_at_end hneeds ((List.prefix_append (magic ++ bytes) r).trans hb')

/-- A module without a name and with one routine `()V`, whose code the bytes begin. -/
def beforeCode : Bytes :=
  magic ++ [1, 0, 0, 0, 0, 0, 0, 0, 0, 0, 1, 0, 0, 0, 0, 0, 0, 0,
    3, 0, 0, 0, 0x28, 0x29, 0x56, 0, 0, 2, 0, 0, 0]

theorem error_located_code :
    Module.decode beforeCode = .error (.unexpectedEnd 36) ∧
      (∃ n, 36 < 36 + n ∧ ∀ b', beforeCode <+: b' → 36 + n ≤ b'.length →
        Module.decode b' ≠ .error (.unexpectedEnd 36)) ∧
      Module.decode (beforeCode ++ [0xee, 7]) = .error (.unknownOpcode 0xee 36) ∧
      ∀ rest, Module.decode (beforeCode ++ 0xee :: rest) = .error (.unknownOpcode 0xee 36) := by
  have hends : Module.decode beforeCode = .error (.unexpectedEnd 36) := by cbv
  have hrefused : Module.decode (beforeCode ++ [0xee, 7]) = .error (.unknownOpcode 0xee 36) := by cbv
  obtain ⟨-, -, n, hn, hneeds⟩ := (error_located hends).2.2 36 rfl
  obtain ⟨-, -, -, hfails⟩ := (error_located hrefused).1 0xee 36 (.inl rfl)
  exact ⟨hends, ⟨n, hn, fun b' hb' => (hneeds b' hb').2⟩, hrefused, fun rest => hfails _ rfl⟩

end PZero.Bytecode

/-
  PlcnextIot.Python.JsonText

  The round trip of the `json` module: `loads (dumps j) = j` for every value
  that `loads` can return at all, and `loads` returns only such values.

  The reader is a machine on characters, so the induction is on the value and
  says what its text does to a reader that waits for a value below any stack of
  open containers.  A number or a literal ends only with the character after
  it; a string, an array or an object ends with its own last character
  (`Closes`), which is the stronger statement.
-/

import Mathlib.Data.List.TakeWhile
import PlcnextIot.Python.Number

namespace PlcnextIot.Python

/-! ## Values that come from text -/

mutual

/-- A value that `loads` can return: an integer within the digit limit, a
    binary64 number, member names that are all different. -/
def Json.Loaded : Json → Prop
  | .int n => (digitsText n.natAbs).length ≤ maxIntDigits
  | .float q => binary64 q = some q
  | .arr items => loadedItems items
  | .obj members => (members.map (·.1)).Nodup ∧ loadedMembers members
  | _ => True

def loadedItems : List Json → Prop
  | [] => True
  | v :: rest => v.Loaded ∧ loadedItems rest

def loadedMembers : List (PyStr × Json) → Prop
  | [] => True
  | (_, v) :: rest => v.Loaded ∧ loadedMembers rest

end

theorem loadedItems_iff {items : List Json} : loadedItems items ↔ ∀ v ∈ items, v.Loaded := by
  induction items with
  | nil => simp [loadedItems]
  | cons v rest ih => simp [loadedItems, ih]

theorem loadedMembers_iff {members : List (PyStr × Json)} :
    loadedMembers members ↔ ∀ m ∈ members, m.2.Loaded := by
  induction members with
  | nil => simp [loadedMembers]
  | cons m rest ih =>
      obtain ⟨k, v⟩ := m
      simp [loadedMembers, ih]

/-! ## The reader on a text -/

/-- Read a text. -/
def Reader.run (r : Reader) (s : PyStr) : Option Reader := s.foldlM Reader.step r

theorem Reader.run_nil (r : Reader) : r.run [] = some r := rfl

theorem Reader.run_cons (r : Reader) (c : Nat) (s : PyStr) :
    r.run (c :: s) = (r.step c).bind fun r' => r'.run s := rfl

theorem Reader.run_append (r : Reader) (a b : PyStr) :
    r.run (a ++ b) = (r.run a).bind fun r' => r'.run b := by
  unfold Reader.run
  rw [List.foldlM_append]
  rfl

theorem Reader.run_singleton (r : Reader) (c : Nat) : r.run [c] = r.step c := by
  rw [Reader.run_cons]
  cases r.step c <;> rfl

/-- The text of a number or a literal. -/
def IsToken (s : PyStr) : Prop := s ≠ [] ∧ ∀ c ∈ s, isTokenChar c = true

theorem run_token {st : List Frame} {acc s : PyStr} (h : ∀ c ∈ s, isTokenChar c = true) :
    Reader.run ⟨st, .token acc⟩ s = some ⟨st, .token (s.reverse ++ acc)⟩ := by
  induction s generalizing acc with
  | nil => rfl
  | cons c cs ih =>
      have hc : isTokenChar c = true := h c List.mem_cons_self
      have hstep : Reader.step ⟨st, .token acc⟩ c = some ⟨st, .token (c :: acc)⟩ := by
        simp [Reader.step, hc]
      rw [Reader.run_cons, hstep, Option.bind_some,
        ih fun d hd => h d (List.mem_cons_of_mem _ hd)]
      simp

/-- A token character starts a token. -/
theorem readValue_token {st : List Frame} {b : Bool} {c : Nat} (h : isTokenChar c = true) :
    readValue st b c = some ⟨st, .token [c]⟩ := by
  have hne : ∀ d, isTokenChar d = false → c ≠ d := by
    rintro d hd rfl
    rw [h] at hd
    cases hd
  have hspace : isSpace c = false := by
    simp only [isSpace, Bool.or_eq_false_iff, beq_eq_false_iff_ne]
    exact ⟨⟨⟨hne _ rfl, hne _ rfl⟩, hne _ rfl⟩, hne _ rfl⟩
  unfold readValue
  rw [hspace, if_neg (by simp), if_neg (hne _ rfl), if_neg (hne _ rfl), if_neg (hne _ rfl),
    if_neg (hne _ rfl), if_pos h]

theorem run_value_token {st : List Frame} {b : Bool} {s : PyStr} (h : IsToken s) :
    Reader.run ⟨st, .value b⟩ s = some ⟨st, .token s.reverse⟩ := by
  obtain ⟨hne, hs⟩ := h
  cases s with
  | nil => exact absurd rfl hne
  | cons c cs =>
      have hstep : Reader.step ⟨st, .value b⟩ c = some ⟨st, .token [c]⟩ :=
        readValue_token (hs c List.mem_cons_self)
      rw [Reader.run_cons, hstep, Option.bind_some,
        run_token fun d hd => hs d (List.mem_cons_of_mem _ hd)]
      simp

/-- The character after a completed value goes to `readNext`. -/
theorem step_complete {st : List Frame} {v : Json} {r : Reader} (h : complete st v = some r)
    (c : Nat) : r.step c = readNext r c := by
  unfold complete at h
  split at h
  · cases h
    by_cases hc : isSpace c <;> simp [Reader.step, readNext, hc]
  · cases h
    rfl
  · split at h
    · cases h
    · cases h
      rfl
  · cases h

/-! ## What the text of a value does to a reader -/

/-- The text of the value, read up to the character after it. -/
def Reads (text : PyStr) (j : Json) : Prop :=
  ∀ (st : List Frame) (b : Bool) (c : Nat) (rest : PyStr), isTokenChar c = false →
    Reader.run ⟨st, .value b⟩ (text ++ c :: rest)
      = ((complete st j).bind (readNext · c)).bind fun r => r.run rest

/-- The text of the value ends by itself. -/
def Closes (text : PyStr) (j : Json) : Prop :=
  ∀ (st : List Frame) (b : Bool), Reader.run ⟨st, .value b⟩ text = complete st j

theorem Closes.reads {text : PyStr} {j : Json} (h : Closes text j) : Reads text j := by
  intro st b c rest _
  rw [Reader.run_append, h st b]
  cases hr : complete st j with
  | none => rfl
  | some r =>
      rw [Option.bind_some, Reader.run_cons, step_complete hr]
      rfl

theorem reads_token {text : PyStr} {j : Json} (ht : IsToken text)
    (hp : parseScalar text = some j) : Reads text j := by
  intro st b c rest hc
  have hstep : Reader.step ⟨st, .token text.reverse⟩ c = (complete st j).bind (readNext · c) := by
    simp [Reader.step, hc, hp]
  rw [Reader.run_append, run_value_token ht, Option.bind_some, Reader.run_cons, hstep]

/-! ## Strings -/

theorem pushUnit_of_lt {acc : PyStr} {u : Nat} (h : u < 0xD800) : pushUnit acc u = u :: acc := by
  cases acc with
  | nil => rfl
  | cons h' rest => rw [pushUnit, if_neg (by omega)]

/-- The last two characters of a `\\u00XX` escape are the digits of its code. -/
theorem hexEscape_digits : ∀ c < 0x20,
    hexEscape c = [0x5C, 0x75, 0x30, 0x30, (hexEscape c).getD 4 0, (hexEscape c).getD 5 0] ∧
      hexValue ((hexEscape c).getD 4 0) = some (c / 16) ∧
      hexValue ((hexEscape c).getD 5 0) = some (c % 16) := by
  decide

theorem run_hexEscape {st : List Frame} {isName : Bool} {acc : PyStr} {c : Nat} (h : c < 0x20) :
    Reader.run ⟨st, .text isName acc .none⟩ (hexEscape c)
      = some ⟨st, .text isName (c :: acc) .none⟩ := by
  obtain ⟨d1, d2, heq, h1, h2⟩ : ∃ d1 d2, hexEscape c = [0x5C, 0x75, 0x30, 0x30, d1, d2] ∧
      hexValue d1 = some (c / 16) ∧ hexValue d2 = some (c % 16) :=
    ⟨_, _, hexEscape_digits c h⟩
  have hzero : hexValue 0x30 = some 0 := rfl
  have hval : 16 * (c / 16) + c % 16 = c := by omega
  have hpush : pushUnit acc c = c :: acc := pushUnit_of_lt (by omega)
  rw [heq]
  simp [Reader.run_cons, Reader.run_nil, Reader.step, readText, hzero, h1, h2, hval, hpush]

/-- One character of a string literal is read as that character. -/
theorem run_quoteChar {st : List Frame} {isName : Bool} {acc : PyStr} (c : Nat) :
    Reader.run ⟨st, .text isName acc .none⟩ (quoteChar c)
      = some ⟨st, .text isName (c :: acc) .none⟩ := by
  unfold quoteChar
  split
  · subst_vars; rfl
  split
  · subst_vars; rfl
  split
  · subst_vars; rfl
  split
  · subst_vars; rfl
  split
  · subst_vars; rfl
  split
  · subst_vars; rfl
  split
  · subst_vars; rfl
  split
  · exact run_hexEscape ‹_›
  · rename_i hquote hslash _ _ _ _ _ hlow
    have hq : c ≠ 0x22 := hquote
    have hs : c ≠ 0x5C := hslash
    simp [Reader.run_singleton, Reader.step, readText, hq, hs, hlow]

theorem run_chars {st : List Frame} {isName : Bool} (s acc : PyStr) :
    Reader.run ⟨st, .text isName acc .none⟩ (s.flatMap quoteChar)
      = some ⟨st, .text isName (s.reverse ++ acc) .none⟩ := by
  induction s generalizing acc with
  | nil => rfl
  | cons c cs ih =>
      rw [List.flatMap_cons, Reader.run_append, run_quoteChar, Option.bind_some, ih]
      simp

/-- A string literal after its opening quote. -/
theorem run_quoted {st : List Frame} {isName : Bool} (s : PyStr) :
    Reader.run ⟨st, .text isName [] .none⟩ (s.flatMap quoteChar ++ [ '"'.toNat])
      = if isName then some ⟨st, .colon s⟩ else complete st (.str s) := by
  rw [Reader.run_append, run_chars, Option.bind_some, Reader.run_singleton]
  simp [Reader.step, readText]

theorem quote_eq (s : PyStr) : quote s = '"'.toNat :: (s.flatMap quoteChar ++ [ '"'.toNat]) := rfl

theorem closes_quote (s : PyStr) : Closes (quote s) (.str s) := by
  intro st b
  have hopen : Reader.step ⟨st, .value b⟩ '"'.toNat = some ⟨st, .text false [] .none⟩ := rfl
  rw [quote_eq, Reader.run_cons, hopen, Option.bind_some, run_quoted]
  rfl

/-- A member name is read up to its colon. -/
theorem run_name {st : List Frame} {b : Bool} (k : PyStr) :
    Reader.run ⟨st, .name b⟩ (quote k) = some ⟨st, .colon k⟩ := by
  have hopen : Reader.step ⟨st, .name b⟩ '"'.toNat = some ⟨st, .text true [] .none⟩ := rfl
  rw [quote_eq, Reader.run_cons, hopen, Option.bind_some, run_quoted]
  rfl

/-! ## Containers -/

/-- Below an open array, the items and the closing bracket complete it. -/
theorem run_items {st : List Frame} {b : Bool} {v : Json} {vs acc : List Json}
    (h : ∀ w ∈ v :: vs, Reads (dumps w) w) :
    Reader.run ⟨.arr acc :: st, .value b⟩ (dumpsItems (v :: vs) ++ [ ']'.toNat])
      = complete st (.arr (acc.reverse ++ v :: vs)) := by
  induction vs generalizing v acc b with
  | nil =>
      have hv := h v List.mem_cons_self
      have htext : dumpsItems [v] ++ [ ']'.toNat] = dumps v ++ ']'.toNat :: [] := by
        simp [dumpsItems]
      rw [htext, hv _ _ _ _ rfl]
      simp [complete, readNext, isSpace, Reader.run_nil]
  | cons w ws ih =>
      have hv := h v List.mem_cons_self
      have htext : dumpsItems (v :: w :: ws) ++ [ ']'.toNat]
          = dumps v ++ ','.toNat :: (dumpsItems (w :: ws) ++ [ ']'.toNat]) := by
        simp [dumpsItems]
      have hnext : (complete (.arr acc :: st) v).bind (readNext · ','.toNat)
          = some ⟨.arr (v :: acc) :: st, .value false⟩ := by
        simp [complete, readNext, isSpace]
      rw [htext, hv _ _ _ _ rfl, hnext, Option.bind_some,
        ih fun x hx => h x (List.mem_cons_of_mem _ hx)]
      simp

/-- One member with a new name, and the character after its value. -/
theorem run_member {st : List Frame} {b : Bool} {k : PyStr} {v : Json}
    {acc : List (PyStr × Json)} (hk : acc.any (·.1 == k) = false) (hv : Reads (dumps v) v)
    {c : Nat} (hc : isTokenChar c = false) (rest : PyStr) :
    Reader.run ⟨.obj acc none :: st, .name b⟩ (quote k ++ ':'.toNat :: (dumps v ++ c :: rest))
      = (readNext ⟨.obj ((k, v) :: acc) none :: st, .next⟩ c).bind fun r => r.run rest := by
  have hcolon : Reader.step ⟨.obj acc none :: st, .colon k⟩ ':'.toNat
      = some ⟨.obj acc (some k) :: st, .value false⟩ := by
    simp [Reader.step, isSpace]
  have hcomplete : complete (.obj acc (some k) :: st) v
      = some ⟨.obj ((k, v) :: acc) none :: st, .next⟩ := by
    rw [complete, hk]
    rfl
  rw [Reader.run_append, run_name, Option.bind_some, Reader.run_cons, hcolon, Option.bind_some,
    hv _ _ _ _ hc, hcomplete, Option.bind_some]

/-- Below an open object, the members and the closing brace complete it. -/
theorem run_members {st : List Frame} {b : Bool} {k : PyStr} {v : Json}
    {ms acc : List (PyStr × Json)} (h : ∀ m ∈ (k, v) :: ms, Reads (dumps m.2) m.2)
    (hnodup : ((acc.reverse ++ (k, v) :: ms).map (·.1)).Nodup) :
    Reader.run ⟨.obj acc none :: st, .name b⟩ (dumpsMembers ((k, v) :: ms) ++ [ '}'.toNat])
      = complete st (.obj (acc.reverse ++ (k, v) :: ms)) := by
  induction ms generalizing k v acc b with
  | nil =>
      have hk : acc.any (·.1 == k) = false := by
        rw [List.map_append, List.nodup_append] at hnodup
        simpa using fun m v' hm heq => hnodup.2.2 m (by simpa using ⟨v', hm⟩) k (by simp) heq
      have hv := h (k, v) List.mem_cons_self
      have htext : dumpsMembers [(k, v)] ++ [ '}'.toNat]
          = quote k ++ ':'.toNat :: (dumps v ++ '}'.toNat :: []) := by
        simp [dumpsMembers]
      rw [htext, run_member hk hv rfl]
      simp [readNext, isSpace, Reader.run_nil]
  | cons m ms ih =>
      obtain ⟨k', v'⟩ := m
      have hk : acc.any (·.1 == k) = false := by
        rw [List.map_append, List.nodup_append] at hnodup
        simpa using fun m v' hm heq => hnodup.2.2 m (by simpa using ⟨v', hm⟩) k (by simp) heq
      have hv := h (k, v) List.mem_cons_self
      have htext : dumpsMembers ((k, v) :: (k', v') :: ms) ++ [ '}'.toNat]
          = quote k ++ ':'.toNat ::
            (dumps v ++ ','.toNat :: (dumpsMembers ((k', v') :: ms) ++ [ '}'.toNat])) := by
        simp [dumpsMembers]
      have hnext : readNext ⟨.obj ((k, v) :: acc) none :: st, .next⟩ ','.toNat
          = some ⟨.obj ((k, v) :: acc) none :: st, .name false⟩ := by
        simp [readNext, isSpace]
      rw [htext, run_member hk hv rfl, hnext, Option.bind_some,
        ih (fun x hx => h x (List.mem_cons_of_mem _ hx)) (by simpa using hnodup)]
      simp

/-! ## The round trip -/

theorem isTokenChar_of_isDigit {c : Nat} (h : isDigit c = true) : isTokenChar c = true := by
  simp [isTokenChar, h]

theorem isToken_numeral {negative : Bool} {whole : PyStr} {f : Option PyStr}
    {e : Option (Bool × PyStr)} (hw : IsDigits whole) (hf : ∀ ds ∈ f, IsDigits ds)
    (he : ∀ x ∈ e, IsDigits x.2) : IsToken (numeral negative whole f e) := by
  refine ⟨by cases negative <;> simp [numeral, hw.1], fun c hc => ?_⟩
  simp only [numeral, List.mem_append] at hc
  rcases hc with hc | hc | hc | hc
  · cases negative with
    | false => simp at hc
    | true =>
        rw [List.mem_singleton.mp hc]
        rfl
  · exact isTokenChar_of_isDigit (hw.2 c hc)
  · cases f with
    | none => simp [fractionText] at hc
    | some ds =>
        rcases List.mem_cons.mp hc with rfl | hc
        · rfl
        · exact isTokenChar_of_isDigit ((hf ds rfl).2 c hc)
  · cases e with
    | none => simp [exponentText] at hc
    | some x =>
        rcases List.mem_cons.mp hc with rfl | hc
        · rfl
        · rcases List.mem_cons.mp hc with rfl | hc
          · split <;> rfl
          · exact isTokenChar_of_isDigit ((he x rfl).2 c hc)

theorem isToken_intText (n : ℤ) : IsToken (intText n) := by
  rw [intText_numeral]
  exact isToken_numeral (isDigits_digitsText _) (by simp) (by simp)

theorem isToken_floatRepr {q : ℚ} (h : binary64 q = some q) : IsToken (floatRepr q) := by
  obtain ⟨negative, whole, f, e, heq, hw, hf, he⟩ := floatRepr_numeral h
  rw [heq]
  exact isToken_numeral hw hf he

/-- How the text of a value ends: a scalar with what follows, the rest by
    themselves. -/
def Ends (text : PyStr) (j : Json) : Prop :=
  (IsToken text ∧ parseScalar text = some j) ∨ Closes text j

theorem Ends.reads {text : PyStr} {j : Json} (h : Ends text j) : Reads text j := by
  rcases h with ⟨ht, hp⟩ | hc
  · exact reads_token ht hp
  · exact hc.reads

mutual

theorem ends_dumps : (j : Json) → j.Loaded → Ends (dumps j) j
  | .null, _ => Or.inl ⟨⟨by decide, by decide⟩, by decide⟩
  | .bool true, _ => Or.inl ⟨⟨by decide, by decide⟩, by decide⟩
  | .bool false, _ => Or.inl ⟨⟨by decide, by decide⟩, by decide⟩
  | .int n, h => Or.inl ⟨isToken_intText n, parseScalar_intText h⟩
  | .float _, h => Or.inl ⟨isToken_floatRepr h, parseScalar_floatRepr h⟩
  | .negZero, _ => Or.inl ⟨⟨by decide, by decide⟩, by decide +kernel⟩
  | .str s, _ => Or.inr (closes_quote s)
  | .arr [], _ => by
      refine Or.inr fun st b => ?_
      have hopen : Reader.step ⟨st, .value b⟩ '['.toNat = some ⟨.arr [] :: st, .value true⟩ := rfl
      have hclose : Reader.step ⟨.arr [] :: st, .value true⟩ ']'.toNat
          = complete st (.arr []) := by
        simp [Reader.step, readValue, isSpace]
      show Reader.run _ [ '['.toNat, ']'.toNat] = _
      rw [Reader.run_cons, hopen, Option.bind_some, Reader.run_singleton, hclose]
  | .arr (v :: vs), h => by
      refine Or.inr fun st b => ?_
      have hopen : Reader.step ⟨st, .value b⟩ '['.toNat = some ⟨.arr [] :: st, .value true⟩ := rfl
      have hread : ∀ w ∈ v :: vs, Reads (dumps w) w := fun w hw =>
        (ends_items (v :: vs) h w hw).reads
      show Reader.run _ ('['.toNat :: (dumpsItems (v :: vs) ++ [ ']'.toNat])) = _
      rw [Reader.run_cons, hopen, Option.bind_some, run_items hread]
      rfl
  | .obj [], _ => by
      refine Or.inr fun st b => ?_
      have hopen : Reader.step ⟨st, .value b⟩ '{'.toNat
          = some ⟨.obj [] none :: st, .name true⟩ := rfl
      have hclose : Reader.step ⟨.obj [] none :: st, .name true⟩ '}'.toNat
          = complete st (.obj []) := by
        simp [Reader.step, readName, isSpace]
      show Reader.run _ [ '{'.toNat, '}'.toNat] = _
      rw [Reader.run_cons, hopen, Option.bind_some, Reader.run_singleton, hclose]
  | .obj ((k, v) :: ms), h => by
      refine Or.inr fun st b => ?_
      have hopen : Reader.step ⟨st, .value b⟩ '{'.toNat
          = some ⟨.obj [] none :: st, .name true⟩ := rfl
      have hread : ∀ m ∈ (k, v) :: ms, Reads (dumps m.2) m.2 := fun m hm =>
        (ends_members ((k, v) :: ms) h.2 m hm).reads
      show Reader.run _ ('{'.toNat :: (dumpsMembers ((k, v) :: ms) ++ [ '}'.toNat])) = _
      rw [Reader.run_cons, hopen, Option.bind_some, run_members hread (by simpa using h.1)]
      rfl

theorem ends_items : (items : List Json) → loadedItems items → ∀ w ∈ items, Ends (dumps w) w
  | [], _, _, hw => absurd hw List.not_mem_nil
  | v :: vs, h, w, hw => by
      rcases List.mem_cons.mp hw with heq | hw
      · rw [heq]
        exact ends_dumps v h.1
      · exact ends_items vs h.2 w hw

theorem ends_members : (ms : List (PyStr × Json)) → loadedMembers ms →
    ∀ m ∈ ms, Ends (dumps m.2) m.2
  | [], _, _, hm => absurd hm List.not_mem_nil
  | (k, v) :: ms, h, m, hm => by
      rcases List.mem_cons.mp hm with heq | hm
      · rw [heq]
        exact ends_dumps v h.1
      · exact ends_members ms h.2 m hm

end

/-- Reading what was written gives the value back. -/
theorem loads_dumps {j : Json} (h : j.Loaded) : loads (dumps j) = some j := by
  show ((Reader.run ⟨[], .value false⟩ (dumps j)).bind Reader.finish) = some j
  rcases ends_dumps j h with ⟨ht, hp⟩ | hc
  · rw [run_value_token ht, Option.bind_some]
    simp [Reader.finish, hp]
  · rw [hc]
    rfl

/-! ## The encoding of a text -/

theorem encodes_ascii {c : Nat} (h : c < 0x80) : encodes c = true := by
  simp only [encodes, isSurrogate, Bool.and_eq_true, Bool.not_eq_true', Bool.and_eq_false_iff,
    decide_eq_false_iff_not, decide_eq_true_eq]
  omega

theorem encodes_tokenChar {c : Nat} (h : isTokenChar c = true) : encodes c = true := by
  apply encodes_ascii
  simp only [isTokenChar, isDigit, Bool.or_eq_true, Bool.and_eq_true, decide_eq_true_eq,
    beq_iff_eq] at h
  have hsigns : '-'.toNat = 45 ∧ '+'.toNat = 43 ∧ '.'.toNat = 46 := by decide
  omega

theorem IsToken.encodes {s : PyStr} (h : IsToken s) : s.all encodes = true :=
  List.all_eq_true.mpr fun c hc => encodes_tokenChar (h.2 c hc)

theorem hexEscape_encodes : ∀ c < 0x20, (hexEscape c).all encodes = true := by decide

/-- An escape is written in ASCII. -/
theorem quoteChar_encodes (c : Nat) : (quoteChar c).all encodes = encodes c := by
  unfold quoteChar
  split_ifs with h1 h2 h3 h4 h5 h6 h7 h8
  all_goals try (subst_vars; decide)
  · rw [hexEscape_encodes c h8, encodes_ascii (by omega)]
  · simp

theorem quote_encodes (s : PyStr) : (quote s).all encodes = s.all encodes := by
  have hmark : encodes '"'.toNat = true := by decide
  rw [quote_eq, List.all_cons, List.all_append, List.all_cons, List.all_nil, hmark, Bool.true_and,
    Bool.and_true, Bool.and_true]
  induction s with
  | nil => rfl
  | cons c rest ih => rw [List.flatMap_cons, List.all_append, List.all_cons, quoteChar_encodes, ih]

mutual

/-- The text of a value has an encoding unless one of its strings holds a surrogate. -/
theorem dumps_encodes : (j : Json) → j.Loaded → (dumps j).all encodes = j.encodable
  | .null, _ => by decide
  | .bool b, _ => by cases b <;> decide
  | .int n, _ => (isToken_intText n).encodes
  | .float q, h => (isToken_floatRepr h).encodes
  | .negZero, _ => by decide
  | .str s, _ => quote_encodes s
  | .arr items, h => by
      have hopen : encodes '['.toNat = true := by decide
      have hclose : encodes ']'.toNat = true := by decide
      show (([ '['.toNat] ++ dumpsItems items) ++ [ ']'.toNat]).all encodes = encodableItems items
      simp only [List.all_append, List.all_cons, List.all_nil, hopen, hclose, Bool.true_and,
        Bool.and_true]
      exact dumpsItems_encodes items h
  | .obj members, h => by
      have hopen : encodes '{'.toNat = true := by decide
      have hclose : encodes '}'.toNat = true := by decide
      show (([ '{'.toNat] ++ dumpsMembers members) ++ [ '}'.toNat]).all encodes =
        encodableMembers members
      simp only [List.all_append, List.all_cons, List.all_nil, hopen, hclose, Bool.true_and,
        Bool.and_true]
      exact dumpsMembers_encodes members h.2

theorem dumpsItems_encodes : (items : List Json) → loadedItems items →
    (dumpsItems items).all encodes = encodableItems items
  | [], _ => rfl
  | v :: rest, h => by
      have hcomma : (if rest.isEmpty then ([] : PyStr) else [ ','.toNat]).all encodes = true := by
        split <;> decide
      rw [dumpsItems, List.all_append, List.all_append, hcomma, Bool.and_true, encodableItems,
        dumps_encodes v h.1, dumpsItems_encodes rest h.2]

theorem dumpsMembers_encodes : (members : List (PyStr × Json)) → loadedMembers members →
    (dumpsMembers members).all encodes = encodableMembers members
  | [], _ => rfl
  | (k, v) :: rest, h => by
      have hcomma : (if rest.isEmpty then ([] : PyStr) else [ ','.toNat]).all encodes = true := by
        split <;> decide
      have hcolon : [ ':'.toNat].all encodes = true := by decide
      rw [dumpsMembers, List.all_append, List.all_append, List.all_append, List.all_append, hcomma,
        hcolon, Bool.and_true, Bool.and_true, encodableMembers, quote_encodes,
        dumps_encodes v h.1, dumpsMembers_encodes rest h.2]

end

/-! ## What `loads` returns -/

/-- A number token denotes a value that its own text denotes. -/
theorem parseNumber_loaded {s : PyStr} {j : Json} (h : parseNumber s = some j) : j.Loaded := by
  unfold parseNumber at h
  extract_lets negative body whole at h
  have hdigits : ∀ c ∈ whole, isDigit c = true := fun c hc => List.mem_takeWhile_imp hc
  split at h
  · cases h
  split at h
  · cases h
  split at h
  · cases h
  extract_lets frac at h
  split at h
  · -- an integer: as many digits as the token has
    split at h
    · rename_i hlen
      cases h
      have hlt : digitsValue whole < 10 ^ maxIntDigits :=
        (digitsValue_lt whole hdigits).trans_le (Nat.pow_le_pow_right (by decide) hlen)
      have habs : ((if negative then -1 else 1 : ℤ) * digitsValue whole).natAbs
          = digitsValue whole := by
        split <;> simp
      show (digitsText ((if negative then -1 else 1 : ℤ) * digitsValue whole).natAbs).length
        ≤ maxIntDigits
      rw [habs]
      exact (digitsText_length_le (by decide)).mpr hlt
    · cases h
  · -- a float: rounding again changes nothing
    obtain ⟨q, hq, rfl⟩ := Option.map_eq_some_iff.mp h
    have hidem := binary64_idem hq
    unfold floatOf
    split
    · trivial
    · exact hidem

theorem parseScalar_loaded {s : PyStr} {j : Json} (h : parseScalar s = some j) : j.Loaded := by
  unfold parseScalar at h
  split at h
  · cases h
    trivial
  split at h
  · cases h
    trivial
  split at h
  · cases h
    trivial
  · exact parseNumber_loaded h

/-- The content of an open container is loaded. -/
def Frame.Loaded : Frame → Prop
  | .arr items => ∀ v ∈ items, v.Loaded
  | .obj members _ => (members.map (·.1)).Nodup ∧ ∀ m ∈ members, m.2.Loaded

/-- Everything the reader holds is loaded. -/
def Reader.Loaded (r : Reader) : Prop :=
  (∀ f ∈ r.stack, f.Loaded) ∧ ∀ v, r.mode = .done v → v.Loaded

theorem complete_loaded {st : List Frame} {v : Json} {r : Reader} (hst : ∀ f ∈ st, f.Loaded)
    (hv : v.Loaded) (h : complete st v = some r) : r.Loaded := by
  unfold complete at h
  split at h
  · cases h
    exact ⟨by simp, by rintro _ ⟨⟩; exact hv⟩
  · rename_i items st
    cases h
    refine ⟨?_, by rintro _ ⟨⟩⟩
    intro f hf
    rcases List.mem_cons.mp hf with rfl | hf
    · have hitems : (Frame.arr items).Loaded := hst _ List.mem_cons_self
      intro w hw
      rcases List.mem_cons.mp hw with rfl | hw
      · exact hv
      · exact hitems w hw
    · exact hst f (List.mem_cons_of_mem _ hf)
  · rename_i members key st
    split at h
    · cases h
    · rename_i hnew
      cases h
      refine ⟨?_, by rintro _ ⟨⟩⟩
      intro f hf
      rcases List.mem_cons.mp hf with rfl | hf
      · obtain ⟨hnodup, hvals⟩ : (Frame.obj members (some key)).Loaded := hst _ List.mem_cons_self
        refine ⟨?_, ?_⟩
        · rw [List.map_cons, List.nodup_cons]
          refine ⟨?_, hnodup⟩
          intro hmem
          obtain ⟨m, hm, hk⟩ := List.mem_map.mp hmem
          exact hnew (List.any_eq_true.mpr ⟨m, hm, by simpa using hk⟩)
        · intro m hm
          rcases List.mem_cons.mp hm with rfl | hm
          · exact hv
          · exact hvals m hm
      · exact hst f (List.mem_cons_of_mem _ hf)
  · cases h

/-- A reader that is not done only has its stack to vouch for. -/
theorem Reader.loaded_of_stack {st : List Frame} {m : Mode} (hst : ∀ f ∈ st, f.Loaded)
    (hm : ∀ v, m ≠ .done v) : Reader.Loaded ⟨st, m⟩ :=
  ⟨hst, fun v h => absurd h (hm v)⟩

theorem readNext_loaded {r r' : Reader} {c : Nat} (hr : r.Loaded) (h : readNext r c = some r') :
    r'.Loaded := by
  obtain ⟨st, m⟩ := r
  have hst : ∀ f ∈ st, f.Loaded := hr.1
  unfold readNext at h
  split at h
  · cases h
    exact hr
  split at h
  · rename_i items st' heq
    subst heq
    have hrest : ∀ f ∈ st', f.Loaded := fun f hf => hst f (List.mem_cons_of_mem _ hf)
    have hitems : (Frame.arr items).Loaded := hst _ List.mem_cons_self
    split at h
    · cases h
      exact Reader.loaded_of_stack hst (by simp)
    split at h
    · refine complete_loaded (v := .arr items.reverse) hrest ?_ h
      exact loadedItems_iff.mpr fun v hv => hitems v (List.mem_reverse.mp hv)
    · cases h
  · rename_i members st' heq
    subst heq
    have hrest : ∀ f ∈ st', f.Loaded := fun f hf => hst f (List.mem_cons_of_mem _ hf)
    obtain ⟨hnodup, hvals⟩ : (Frame.obj members none).Loaded := hst _ List.mem_cons_self
    split at h
    · cases h
      exact Reader.loaded_of_stack hst (by simp)
    split at h
    · refine complete_loaded (v := .obj members.reverse) hrest ⟨?_, ?_⟩ h
      · rw [List.map_reverse]
        exact List.nodup_reverse.mpr hnodup
      · exact loadedMembers_iff.mpr fun m hm => hvals m (List.mem_reverse.mp hm)
    · cases h
  · cases h

theorem readValue_loaded {st : List Frame} {b : Bool} {c : Nat} {r : Reader}
    (hst : ∀ f ∈ st, f.Loaded) (h : readValue st b c = some r) : r.Loaded := by
  have hpush : ∀ g : Frame, g.Loaded → ∀ f ∈ g :: st, f.Loaded := by
    intro g hg f hf
    rcases List.mem_cons.mp hf with rfl | hf
    · exact hg
    · exact hst f hf
  unfold readValue at h
  split at h
  · cases h
    exact Reader.loaded_of_stack hst (by simp)
  split at h
  · cases h
    exact Reader.loaded_of_stack hst (by simp)
  split at h
  · cases h
    exact Reader.loaded_of_stack (hpush _ (by simp [Frame.Loaded])) (by simp)
  split at h
  · cases h
    exact Reader.loaded_of_stack (hpush _ (by simp [Frame.Loaded])) (by simp)
  split at h
  · split at h
    · exact complete_loaded (v := .arr []) (fun f hf => hst f (List.mem_cons_of_mem _ hf)) trivial h
    · cases h
  split at h
  · cases h
    exact Reader.loaded_of_stack hst (by simp)
  · cases h

theorem readName_loaded {st : List Frame} {b : Bool} {c : Nat} {r : Reader}
    (hst : ∀ f ∈ st, f.Loaded) (h : readName st b c = some r) : r.Loaded := by
  unfold readName at h
  split at h
  · cases h
    exact Reader.loaded_of_stack hst (by simp)
  split at h
  · cases h
    exact Reader.loaded_of_stack hst (by simp)
  split at h
  · split at h
    · exact complete_loaded (v := .obj []) (fun f hf => hst f (List.mem_cons_of_mem _ hf))
        ⟨List.nodup_nil, trivial⟩ h
    · cases h
  · cases h

theorem readText_loaded {st : List Frame} {isName : Bool} {acc : PyStr} {esc : Escape} {c : Nat}
    {r : Reader} (hst : ∀ f ∈ st, f.Loaded) (h : readText st isName acc esc c = some r) :
    r.Loaded := by
  cases esc with
  | none =>
      simp only [readText] at h
      split at h
      · split at h
        · cases h
          exact Reader.loaded_of_stack hst (by simp)
        · exact complete_loaded (v := .str acc.reverse) hst trivial h
      split at h
      · cases h
        exact Reader.loaded_of_stack hst (by simp)
      split at h
      · cases h
      · cases h
        exact Reader.loaded_of_stack hst (by simp)
  | slash =>
      simp only [readText] at h
      split at h
      · cases h
        exact Reader.loaded_of_stack hst (by simp)
      · obtain ⟨d, -, rfl⟩ := Option.map_eq_some_iff.mp h
        exact Reader.loaded_of_stack hst (by simp)
  | hex owed code =>
      simp only [readText] at h
      obtain ⟨d, -, hr⟩ := Option.map_eq_some_iff.mp h
      split at hr
      · subst hr
        exact Reader.loaded_of_stack hst (by simp)
      · subst hr
        exact Reader.loaded_of_stack hst (by simp)

/-- One character keeps what the reader holds loaded. -/
theorem step_loaded {r r' : Reader} {c : Nat} (hr : r.Loaded) (h : r.step c = some r') :
    r'.Loaded := by
  obtain ⟨st, m⟩ := r
  have hst : ∀ f ∈ st, f.Loaded := hr.1
  cases m with
  | value b => exact readValue_loaded hst h
  | name b => exact readName_loaded hst h
  | colon key =>
      simp only [Reader.step] at h
      split at h
      · cases h
        exact hr
      split at h
      · split at h
        · rename_i _ members k st'
          cases h
          have hframe : (Frame.obj members k).Loaded := hst _ List.mem_cons_self
          refine Reader.loaded_of_stack ?_ (by simp)
          intro f hf
          rcases List.mem_cons.mp hf with rfl | hf
          · exact hframe
          · exact hst f (List.mem_cons_of_mem _ hf)
        · cases h
      · cases h
  | text isName acc esc => exact readText_loaded hst h
  | token acc =>
      simp only [Reader.step] at h
      split at h
      · cases h
        exact Reader.loaded_of_stack hst (by simp)
      split at h
      · cases h
      · rename_i v hv
        obtain ⟨r1, h1, h2⟩ := Option.bind_eq_some_iff.mp h
        exact readNext_loaded (complete_loaded hst (parseScalar_loaded hv) h1) h2
  | next => exact readNext_loaded hr h
  | done v =>
      simp only [Reader.step] at h
      split at h
      · cases h
        exact hr
      · cases h

theorem run_loaded {r r' : Reader} {s : PyStr} (hr : r.Loaded) (h : r.run s = some r') :
    r'.Loaded := by
  induction s generalizing r with
  | nil =>
      cases h
      exact hr
  | cons c cs ih =>
      rw [Reader.run_cons] at h
      obtain ⟨r1, h1, h2⟩ := Option.bind_eq_some_iff.mp h
      exact ih (step_loaded hr h1) h2

/-- What `loads` returns can be written and read again. -/
theorem loads_loaded {s : PyStr} {j : Json} (h : loads s = some j) : j.Loaded := by
  obtain ⟨r, hrun, hfin⟩ := Option.bind_eq_some_iff.mp h
  have hr : r.Loaded := run_loaded (r := ⟨[], .value false⟩) ⟨by simp, by simp⟩ hrun
  unfold Reader.finish at hfin
  split at hfin
  · rename_i v _ hm
    cases hfin
    exact hr.2 _ hm
  · exact parseScalar_loaded hfin
  · cases hfin

end PlcnextIot.Python

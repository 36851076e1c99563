/-
  PlcnextIot.Messaging.Messages

  `messaging/messages.py`: how a response is written, and what a response needs to
  know of the message it answers.

  `identity` reads a message with the hooks of the validator, but without the bound on
  the nesting: it gives up where the decoder runs out of stack, which is the
  interpreter's affair and therefore a parameter.
-/

import PlcnextIot.Config.Models
import PlcnextIot.Python.JsonText

namespace PlcnextIot.Messaging

open PlcnextIot.Python PlcnextIot.Contracts PlcnextIot.Config

/-! ## `encode` -/

/-- `encode`: the codec refuses a lone surrogate. -/
def encode (value : Json) : Except PyExc Bytes :=
  match utf8Encode (dumps value) with
  | some bytes => .ok bytes
  | none => .error .unicodeEncodeError

/-- A message that was written reads as what was written, if it reads at all. -/
theorem decode_encode {value message : Json} {payload : Bytes} (hloaded : value.Loaded)
    (hencode : encode value = .ok payload) (hdecode : decodeMessage payload = some message) :
    message = value := by
  unfold encode at hencode
  split at hencode
  · rename_i bytes htext
    cases hencode
    rw [decodeMessage, utf8Decode_of_utf8Encode htext, Option.bind_some, loads_dumps hloaded]
      at hdecode
    -- the depth bound may refuse it
    split at hdecode
    · rename_i hsome
      cases hsome
      split at hdecode
      · exact (Option.some.inj hdecode).symm
      · cases hdecode
    · cases hdecode
  · cases hencode

theorem isAlnum_encodes {c : Nat} (h : isAlnum c = true) : encodes c = true := by
  apply encodes_ascii
  simp only [isAlnum, isDigit, Bool.or_eq_true, Bool.and_eq_true, decide_eq_true_eq] at h
  omega

/-- An id is written in ASCII. -/
theorem isId_encodes {s : PyStr} (h : isId s = true) : s.all encodes = true := by
  cases s with
  | nil => cases h
  | cons c cs =>
      simp only [isId, idPattern, headTail, Bool.and_eq_true, List.all_eq_true] at h
      obtain ⟨⟨hc, hcs⟩, -⟩ := h
      have hmarks : ∀ x ∈ py "._-", encodes x = true := by decide
      rw [List.all_cons, isAlnum_encodes hc, Bool.true_and, List.all_eq_true]
      intro x hx
      have hx := hcs x hx
      rw [Bool.or_eq_true] at hx
      rcases hx with hx | hx
      · exact isAlnum_encodes hx
      · exact hmarks x (List.contains_iff_mem.mp hx)

/-- A value whose strings hold no surrogate can be written. -/
theorem encode_returns {value : Json} (hloaded : value.Loaded) (h : value.encodable = true) :
    ∃ bytes, encode value = .ok bytes := by
  rw [← dumps_encodes value hloaded, ← utf8Encode_isSome] at h
  obtain ⟨bytes, hbytes⟩ := Option.isSome_iff_exists.mp h
  exact ⟨bytes, by rw [encode, hbytes]⟩

/-! ## `identity` -/

/-- The bound on what `identity` reads. -/
def maxIdentityBytes : ℕ := 2 * 1024 * 1024

/-- The message id and the configuration version that a message names. -/
def namedBy (gateway : PyStr) (value : Json) : Option (PyStr × ℤ) :=
  match value.get? (py "gatewayId"), value.get? (py "messageId"), value.get? (py "configVersion") with
  | some (.str g), some (.str messageId), some (.int version) =>
    if g = gateway ∧ isId messageId = true ∧ 1 ≤ version ∧ version ≤ maxSafe then
      some (messageId, version)
    else none
  | _, _, _ => none

/-- `identity`; `nesting` is how deep a value the decoder can read. -/
def identity (nesting : ℕ) (payload : Bytes) (gateway : PyStr) : Option (PyStr × ℤ) :=
  if maxIdentityBytes < payload.length then none
  else
    match (utf8Decode payload).bind loads with
    | some value => if value.height ≤ nesting then namedBy gateway value else none
    | none => none

/-- What `identity` finds is what the message holds. -/
theorem identity_eq_some {nesting : ℕ} {payload : Bytes} {gateway messageId : PyStr} {version : ℤ}
    (h : identity nesting payload gateway = some (messageId, version)) :
    isId messageId = true ∧ ∃ value, (utf8Decode payload).bind loads = some value ∧
      value.get? (py "messageId") = some (.str messageId) := by
  unfold identity at h
  split at h
  · cases h
  split at h
  · rename_i value hvalue
    split at h
    · unfold namedBy at h
      split at h
      · rename_i g found v hg hfound hv
        split at h
        · rename_i hvalid
          cases h
          exact ⟨hvalid.2.1, value, hvalue, hfound⟩
        · cases h
      · cases h
    · cases h
  · cases h

end PlcnextIot.Messaging

import SmallLisp.Proofs.DefectFreedom
import SmallLisp.Service.Request

namespace SmallLisp

open Text

theorem newline_notMem_toDigits (base number : Nat) : '\n' ∉ Nat.toDigits (base + 2) number := by
  induction number using Nat.strongRecOn with
  | ind number ih =>
      have hdigit (digit : Nat) : '\n' ≠ digit.digitChar := (Nat.digitChar_ne '\n' rfl).symm
      rw [Nat.toDigits_eq_if (by omega)]
      split
      · simp [hdigit]
      · rename_i hlarge
        have hsmaller : number / (base + 2) < number := Nat.div_lt_self (by omega) (by omega)
        simp [ih _ hsmaller, hdigit]

namespace Json

theorem newline_notMem_escapeUnit (unit : Nat) : '\n' ∉ escapeUnit unit := by
  have hdigits := newline_notMem_toDigits 14 unit
  simp [escapeUnit, Quoted.hex, List.mem_replicate, hdigits]

theorem newline_notMem_escapeCode (code : Nat) : '\n' ∉ escapeCode code := by
  unfold escapeCode
  split
  · exact newline_notMem_escapeUnit code
  · simp [newline_notMem_escapeUnit]

theorem newline_notMem_encodeChar (c : Char) : '\n' ∉ encodeChar c := by
  by_cases hnewline : c = '\n'
  · subst hnewline
    decide
  · have hother : '\n' ≠ c := Ne.symm hnewline
    unfold encodeChar
    split_ifs <;> simp [hother, newline_notMem_escapeCode]

theorem newline_notMem_encodeString (points : List CodePoint) : '\n' ∉ encodeString points := by
  have hpoint : ∀ point, '\n' ∉ encodePoint point := by
    intro point
    cases point with
    | char c => exact newline_notMem_encodeChar c
    | surrogate code => exact newline_notMem_escapeCode code
  simp [encodeString, hpoint]

end Json

namespace Service

theorem Response.newline_notMem_encode (response : Response) :
    '\n' ∉ response.toJson.encode := by
  obtain ⟨ok, text⟩ := response
  have hname := Json.newline_notMem_encodeString
  cases ok <;> simp [Response.toJson, Json.encode, Json.encodeMembers, hname]

variable (interpreter : Interpreter)

/-- A request that is not nested too deeply to be read. It may still be malformed. -/
def Shallow (request : List UInt8) : Prop :=
  ∀ text, String.fromUTF8? (ByteArray.mk request.toArray) = some text →
    Json.decode interpreter.levels text.toList ≠ .error .tooDeep

theorem exists_answerText (code : List Char) :
    ∃ shown, answerText interpreter code = .ok shown := by
  have hanswer := interpreter.answer_within (String.ofList code)
  unfold answerText
  generalize interpreter.answer (String.ofList code) = outcome at hanswer
  cases hanswer with
  | ok _ => exact ⟨_, rfl⟩
  | failure _ => exact ⟨_, rfl⟩

theorem exists_answer (code : List CodePoint) :
    ∃ response, answer interpreter code = .ok response := by
  unfold answer
  split
  · rename_i text _
    obtain ⟨shown, hshown⟩ := exists_answerText interpreter text
    rw [hshown]
    exact ⟨_, rfl⟩
  · obtain ⟨shown, hshown⟩ :=
      exists_answerText interpreter (StandIn.encode (StandIn.replaced code) code)
    dsimp only
    rw [hshown]
    exact ⟨_, rfl⟩

theorem exists_answerObject (members : List (List CodePoint × Json)) :
    ∃ response, answerObject interpreter members = .ok response := by
  unfold answerObject
  dsimp only
  split
  · split
    · split
      · exact exists_answer interpreter _
      · exact ⟨_, rfl⟩
    · exact ⟨_, rfl⟩
  · exact ⟨_, rfl⟩

theorem exists_handle {server : Server} {request : List UInt8}
    (h : Shallow server.interpreter request) :
    ∃ response, handle server request = .ok response := by
  unfold handle
  split
  · exact ⟨_, rfl⟩
  · rename_i text htext
    split
    · exact ⟨_, rfl⟩
    · rename_i hdeep
      exact absurd hdeep (h text htext)
    · exact exists_answerObject server.interpreter _
    · exact ⟨_, rfl⟩

end Service

end SmallLisp

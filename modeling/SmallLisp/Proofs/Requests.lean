import SmallLisp.Proofs.Answering
import SmallLisp.Proofs.Drivers

namespace SmallLisp

open Text

namespace Json

namespace Pending

/-- How many arrays and objects are open. -/
def openCount : Pending → Nat
  | done _ => 0
  | wanted stack => stack.length
  | firstItem stack | afterItem _ stack => stack.length + 1
  | firstName stack | nextName _ stack | colon _ _ stack | afterMember _ stack => stack.length + 1

theorem openCount_complete (value : Json) (stack : List Frame) :
    (complete value stack).openCount = stack.length := by
  cases stack with
  | nil => rfl
  | cons frame stack => cases frame <;> rfl

/-- What a step with so many levels is beside the step with one level more. -/
inductive Limited (levels : Nat) : Except Fault Pending → Except Fault Pending → Prop
  | ok {next : Pending} : next.openCount ≤ levels → Limited levels (.ok next) (.ok next)
  | tooDeep {next : Pending} : levels < next.openCount →
      Limited levels (.error .tooDeep) (.ok next)
  | malformed : Limited levels (.error .malformed) (.error .malformed)

section
variable {levels : Nat} {stack : List Frame} {pending : Pending}

theorem limited_complete (value : Json) (h : stack.length ≤ levels) :
    Limited levels (.ok (complete value stack)) (.ok (complete value stack)) :=
  .ok (by rw [openCount_complete]; exact h)

theorem limited_begin (h : stack.length ≤ levels) (token : Token) :
    Limited levels (begin levels stack token) (begin (levels + 1) stack token) := by
  have hopen {next : Pending} (hnext : next.openCount = stack.length + 1) :
      Limited levels (if stack.length < levels then .ok next else .error .tooDeep)
        (if stack.length < levels + 1 then .ok next else .error .tooDeep) := by
    rw [if_pos (Nat.lt_succ_of_le h)]
    split
    · exact .ok (by omega)
    · exact .tooDeep (by omega)
  cases token with
  | openArray => exact hopen rfl
  | openObject => exact hopen rfl
  | string points => exact limited_complete _ h
  | leaf value => exact limited_complete _ h
  | _ => exact .malformed

theorem limited_step (h : pending.openCount ≤ levels) (token : Token) :
    Limited levels (step levels pending token) (step (levels + 1) pending token) := by
  cases pending with
  | done value => exact .malformed
  | wanted stack => exact limited_begin h token
  | firstItem stack =>
      have hinside : (Frame.array [] :: stack).length ≤ levels := h
      cases token with
      | closeArray => exact limited_complete _ (Nat.le_of_succ_le h)
      | _ =>
          simp only [step]
          exact limited_begin hinside _
  | afterItem items stack =>
      cases token with
      | comma => exact .ok h
      | closeArray => exact limited_complete _ (Nat.le_of_succ_le h)
      | _ => exact .malformed
  | firstName stack =>
      cases token with
      | closeObject => exact limited_complete _ (Nat.le_of_succ_le h)
      | string name => exact .ok h
      | _ => exact .malformed
  | nextName members stack =>
      cases token with
      | string name => exact .ok h
      | _ => exact .malformed
  | colon members name stack =>
      cases token with
      | colon => exact .ok h
      | _ => exact .malformed
  | afterMember members stack =>
      cases token with
      | comma => exact .ok h
      | closeObject => exact limited_complete _ (Nat.le_of_succ_le h)
      | _ => exact .malformed

theorem run_tooDeep_iff (h : pending.openCount ≤ levels) (tokens : List Token) :
    tokens.foldlM (step levels) pending = .error .tooDeep ↔
      ∃ taken next, taken <+: tokens ∧ taken.foldlM (step (levels + 1)) pending = .ok next ∧
        levels < next.openCount := by
  induction tokens generalizing pending with
  | nil =>
      constructor
      · intro hrun
        cases hrun
      · rintro ⟨taken, next, htaken, hrun, hnext⟩
        obtain rfl := List.prefix_nil.mp htaken
        obtain rfl := Except.ok.inj hrun
        omega
  | cons token tokens ih =>
      have hstep := limited_step h token
      have hnone {next : Pending} (hrun : ([] : List Token).foldlM (step (levels + 1)) pending =
          .ok next) : ¬ levels < next.openCount := by
        obtain rfl := Except.ok.inj hrun
        omega
      rw [List.foldlM_cons]
      generalize hless : step levels pending token = less at hstep
      generalize hmore : step (levels + 1) pending token = more at hstep
      cases hstep with
      | @ok middle hmiddle =>
          refine (ih hmiddle).trans ⟨?_, ?_⟩
          · rintro ⟨taken, next, htaken, hrun, hnext⟩
            refine ⟨token :: taken, next, (List.prefix_cons_inj token).mpr htaken, ?_, hnext⟩
            rw [List.foldlM_cons, hmore]
            exact hrun
          · rintro ⟨taken, next, htaken, hrun, hnext⟩
            cases taken with
            | nil => exact absurd hnext (hnone hrun)
            | cons other taken =>
                obtain ⟨rfl, hprefix⟩ := List.cons_prefix_cons.mp htaken
                rw [List.foldlM_cons, hmore] at hrun
                exact ⟨taken, next, hprefix, hrun, hnext⟩
      | @tooDeep next hnext =>
          refine iff_of_true rfl ⟨[token], next, ?_, ?_, hnext⟩
          · exact (List.prefix_cons_inj token).mpr (List.nil_prefix)
          · rw [List.foldlM_cons, hmore]
            rfl
      | malformed =>
          refine iff_of_false (fun hless => by cases hless) ?_
          rintro ⟨taken, next, htaken, hrun, hnext⟩
          cases taken with
          | nil => exact hnone hrun hnext
          | cons other taken =>
              obtain ⟨rfl, -⟩ := List.cons_prefix_cons.mp htaken
              rw [List.foldlM_cons, hmore] at hrun
              cases hrun

end

end Pending

/-- Whether some beginning of a text, in order so far, opens more arrays and objects inside one
another than so many. -/
def Overnests (levels : Nat) (text : List Char) : Prop :=
  ∃ taken pending, taken <+: tokens text ∧
    taken.foldlM (Pending.step (levels + 1)) (.wanted []) = .ok pending ∧
      levels < pending.openCount

theorem decode_tooDeep_iff (levels : Nat) (text : List Char) :
    decode levels text = .error .tooDeep ↔ Overnests levels text := by
  rw [Overnests, ← Pending.run_tooDeep_iff (Nat.zero_le levels), decode]
  cases hrun : (tokens text).foldlM (Pending.step levels) (.wanted []) with
  | error fault => simp [bind, Except.bind]
  | ok pending =>
      refine iff_of_false (fun hfinish => ?_) (by simp)
      cases pending <;> cases hfinish

theorem tokens_openArray (count : Nat) (rest : List Char) :
    tokens (List.replicate count '[' ++ rest) =
      List.replicate count Token.openArray ++ tokens rest := by
  induction count with
  | zero => rfl
  | succ count ih =>
      rw [List.replicate_succ, List.cons_append, tokens, if_neg (by decide)]
      exact congrArg (Token.openArray :: ·) ih

theorem run_openArray {levels count : Nat} {stack : List Frame}
    (h : stack.length + count ≤ levels) :
    ∃ inner, (List.replicate count Token.openArray).foldlM (Pending.step (levels + 1))
      (.firstItem stack) = .ok (.firstItem inner) ∧ inner.length = stack.length + count := by
  induction count generalizing stack with
  | zero => exact ⟨stack, rfl, rfl⟩
  | succ count ih =>
      have hlevels : (Frame.array [] :: stack).length < levels + 1 := by
        rw [List.length_cons]
        omega
      have hstep : Pending.step (levels + 1) (.firstItem stack) .openArray =
          .ok (.firstItem (.array [] :: stack)) := by
        simp only [Pending.step, Pending.begin, if_pos hlevels]
      have hinside : (Frame.array [] :: stack).length + count ≤ levels := by
        rw [List.length_cons]
        omega
      obtain ⟨inner, hrun, hinner⟩ := ih hinside
      refine ⟨inner, ?_, by rw [hinner, List.length_cons]; omega⟩
      rw [List.replicate_succ, List.foldlM_cons, hstep]
      exact hrun

theorem overnests_arrays (levels : Nat) (rest : List Char) :
    Overnests levels (List.replicate (levels + 1) '[' ++ rest) := by
  have hempty : ([] : List Frame).length + levels ≤ levels := by simp
  obtain ⟨inner, hrun, hinner⟩ := run_openArray hempty
  refine ⟨List.replicate (levels + 1) .openArray, .firstItem inner, ?_, ?_, ?_⟩
  · rw [tokens_openArray]
    exact List.prefix_append _ _
  · exact hrun
  · rw [Pending.openCount, hinner]
    simp

end Json

namespace Service

/-- The ordinary text that is evaluated for the code of a request. -/
def ordinary (code : List CodePoint) : List Char :=
  match CodePoint.toText? code with
  | some text => text
  | none => StandIn.encode (StandIn.replaced code) code

/-- Whether code has a value with a text. -/
def Succeeds (interpreter : Interpreter) (code : List CodePoint) : Prop :=
  ∃ expression value text, interpreter.read (String.ofList (ordinary code)) = .ok expression ∧
    interpreter.evaluate expression = .ok value ∧ interpreter.render value = .ok text

/-- Whether an object asks for code to be evaluated. Without any code, that is the empty one. -/
def Asks (members : List (List CodePoint × Json)) (code : List CodePoint) : Prop :=
  Json.member? "cmd" members = some (.string (CodePoint.ofText "eval".toList)) ∧
    (Json.member? "code" members).getD (.string []) = .string code

/-- Whether a request is an object that asks for code that has a value with a text. -/
def Fulfilled (interpreter : Interpreter) (request : List UInt8) : Prop :=
  ∃ text members code, String.fromUTF8? (ByteArray.mk request.toArray) = some text ∧
    Json.decode interpreter.levels text.toList = .ok (.object members) ∧
    Asks members code ∧ Succeeds interpreter code

/-- Whether a request is text that opens more arrays and objects inside one another than an
interpreter has levels. -/
def Overnests (interpreter : Interpreter) (request : List UInt8) : Prop :=
  ∃ text, String.fromUTF8? (ByteArray.mk request.toArray) = some text ∧
    Json.Overnests interpreter.levels text.toList

section
variable {interpreter : Interpreter} {server : Server} {request : List UInt8}
variable {response : Response}

theorem shallow_iff : Shallow interpreter request ↔ ¬ Overnests interpreter request := by
  simp only [Shallow, Overnests, ← Json.decode_tooDeep_iff, not_exists, not_and, ne_eq]

theorem answer_ok {code : List CodePoint} (h : answer interpreter code = .ok response) :
    response.ok = true ↔ Succeeds interpreter code := by
  obtain ⟨ok, shown, hanswers⟩ := interpreter.exists_answers (String.ofList (ordinary code))
  have hanswer := answerText_of_answers hanswers
  have hok : response.ok = ok := by
    unfold answer at h
    unfold ordinary at hanswer
    split at h <;> rename_i htext <;> simp only [htext] at hanswer
    all_goals
      simp only [hanswer] at h
      obtain rfl := Except.ok.inj h
      rfl
  rw [hok]
  exact hanswers.ok_iff

theorem answerObject_ok {members : List (List CodePoint × Json)}
    (h : answerObject interpreter members = .ok response) :
    response.ok = true ↔ ∃ code, Asks members code ∧ Succeeds interpreter code := by
  unfold answerObject at h
  dsimp only at h
  split at h
  · rename_i name hname
    split at h
    · rename_i heval
      have hcommand : Json.member? "cmd" members =
          some (.string (CodePoint.ofText "eval".toList)) := by
        rw [heval] at hname
        cases hmember : Json.member? "cmd" members with
        | none => simp [hmember] at hname
        | some command => simpa [hmember] using hname
      split at h
      · rename_i code hcode
        rw [answer_ok h]
        constructor
        · exact fun hsucceeds => ⟨code, ⟨hcommand, hcode⟩, hsucceeds⟩
        · rintro ⟨other, ⟨-, hother⟩, hsucceeds⟩
          obtain rfl := Json.string.inj (hcode.symm.trans hother)
          exact hsucceeds
      · rename_i hcode
        obtain rfl := Except.ok.inj h
        refine iff_of_false Bool.false_ne_true ?_
        rintro ⟨code, ⟨-, hasks⟩, -⟩
        exact hcode code hasks
    · rename_i hother
      obtain rfl := Except.ok.inj h
      refine iff_of_false Bool.false_ne_true ?_
      rintro ⟨code, ⟨hcommand, -⟩, -⟩
      rw [hcommand] at hname
      exact hother (Json.string.inj hname).symm
  · rename_i hname
    obtain rfl := Except.ok.inj h
    refine iff_of_false Bool.false_ne_true ?_
    rintro ⟨code, ⟨hcommand, -⟩, -⟩
    exact hname _ (by rw [hcommand]; rfl)

theorem fulfilled_iff {text : String}
    (htext : String.fromUTF8? (ByteArray.mk request.toArray) = some text) :
    Fulfilled interpreter request ↔ ∃ members,
      Json.decode interpreter.levels text.toList = .ok (.object members) ∧
        ∃ code, Asks members code ∧ Succeeds interpreter code := by
  constructor
  · rintro ⟨other, members, code, hother, hdecode, hcode⟩
    obtain rfl := Option.some.inj (htext.symm.trans hother)
    exact ⟨members, hdecode, code, hcode⟩
  · rintro ⟨members, hdecode, code, hcode⟩
    exact ⟨text, members, code, htext, hdecode, hcode⟩

theorem handle_ok (h : handle server request = .ok response) :
    response.ok = true ↔ Fulfilled server.interpreter request := by
  unfold handle at h
  split at h
  · rename_i htext
    obtain rfl := Except.ok.inj h
    refine iff_of_false Bool.false_ne_true ?_
    rintro ⟨text, members, code, hother, -⟩
    cases htext.symm.trans hother
  · rename_i text htext
    rw [fulfilled_iff htext]
    split at h
    · rename_i hdecode
      obtain rfl := Except.ok.inj h
      refine iff_of_false Bool.false_ne_true ?_
      rintro ⟨members, hmembers, -⟩
      cases hdecode.symm.trans hmembers
    · cases h
    · rename_i members hdecode
      rw [answerObject_ok h]
      constructor
      · exact fun hcode => ⟨members, hdecode, hcode⟩
      · rintro ⟨other, hother, hcode⟩
        obtain rfl := Json.object.inj (Except.ok.inj (hdecode.symm.trans hother))
        exact hcode
    · rename_i value hvalue hdecode
      obtain rfl := Except.ok.inj h
      refine iff_of_false Bool.false_ne_true ?_
      rintro ⟨members, hmembers, -⟩
      exact hvalue members (Except.ok.inj (hdecode.symm.trans hmembers))

theorem handle_of_overnests (h : Overnests server.interpreter request) :
    handle server request = .fail .tooDeep := by
  obtain ⟨text, htext, hdeep⟩ := h
  rw [← Json.decode_tooDeep_iff] at hdeep
  simp only [handle, htext, hdeep]

/-- The server answers every line of bytes with one of two objects, the one with a result exactly
when the line asks for code that has a value with a text. Only a line that opens more arrays and
objects inside one another than there are levels has no answer. -/
theorem handle_cases (server : Server) (request : List UInt8) :
    (Overnests server.interpreter request ∧ handle server request = .fail .tooDeep) ∨
    ¬ Overnests server.interpreter request ∧ ∃ response, handle server request = .ok response ∧
      ((Fulfilled server.interpreter request ∧ response.toJson = .object
        [(CodePoint.ofText "ok".toList, .boolean true),
          (CodePoint.ofText "result".toList, .string response.text)]) ∨
      ¬ Fulfilled server.interpreter request ∧ response.toJson = .object
        [(CodePoint.ofText "ok".toList, .boolean false),
          (CodePoint.ofText "error".toList, .string response.text)]) := by
  by_cases hnests : Overnests server.interpreter request
  · exact .inl ⟨hnests, handle_of_overnests hnests⟩
  · obtain ⟨response, hresponse⟩ := exists_handle (shallow_iff.mpr hnests)
    refine .inr ⟨hnests, response, hresponse, ?_⟩
    have hok := handle_ok hresponse
    cases htruth : response.ok with
    | true => exact .inl ⟨hok.mp htruth, by simp [Response.toJson, htruth]⟩
    | false =>
        refine .inr ⟨fun hfulfilled => ?_, by simp [Response.toJson, htruth]⟩
        simp [hok.mpr hfulfilled] at htruth

/-- A line of brackets is too much. -/
theorem handle_brackets :
    handle { interpreter := { strict := false }, explain := fun _ => "" }
      (String.ofList (List.replicate 5000 '[')).toUTF8.data.toList = .fail .tooDeep := by
  have hbrackets : List.replicate 5000 '[' =
      List.replicate (defaultLevels + 1) '[' ++ List.replicate 3999 '[' := by
    rw [List.replicate_append_replicate]
    rfl
  refine handle_of_overnests ⟨_, fromUTF8?_toUTF8 _, ?_⟩
  rw [String.toList_ofList, hbrackets]
  exact Json.overnests_arrays _ _

end

end Service

end SmallLisp

import SmallLisp.Proofs.Answering
import SmallLisp.Proofs.Framing

namespace SmallLisp.Service

/-- One line that answers a request. -/
def Answers (server : Server) (request : List UInt8) (text : String) : Prop :=
  ∃ response, handle server request = .ok response ∧
    text.toList = response.toJson.encode ++ ['\n'] ∧ '\n' ∉ response.toJson.encode

/-- Texts that answer, one by one, the complete lines of some bytes that are not blank. -/
def Answered (server : Server) (bytes : List UInt8) (texts : List String) : Prop :=
  ∃ lines rest, Cut bytes lines rest ∧ List.Forall₂ (Answers server) (requests lines) texts

/-- Bytes whose complete lines are not nested too deeply to be read. -/
def ShallowLines (interpreter : Interpreter) (bytes : List UInt8) : Prop :=
  ∀ lines rest, Cut bytes lines rest → ∀ request ∈ requests lines, Shallow interpreter request

def ownOf {Client α : Type} [DecidableEq Client] (client : Client)
    (entries : List (Client × α)) : List α :=
  (entries.filter fun entry => entry.1 = client).map Prod.snd

section
variable {server : Server} {interpreter : Interpreter} {texts later : List String}
variable {bytes first second waiting rest chunk request : List UInt8}
variable {lines chunks others items : List (List UInt8)} {sent : List (List String)}

theorem answers_line {response : Response} (h : handle server request = .ok response) :
    Answers server request response.line :=
  ⟨response, h, String.toList_ofList, response.newline_notMem_encode⟩

theorem answers_iff {text : String} :
    Answers server request text ↔
      ∃ response, handle server request = .ok response ∧ text = response.line := by
  constructor
  · rintro ⟨response, hresponse, htext, -⟩
    refine ⟨response, hresponse, ?_⟩
    rw [Response.line, ← htext, String.ofList_toList]
  · rintro ⟨response, hresponse, rfl⟩
    exact answers_line hresponse

theorem answerAll_append (h : List.Forall₂ (Answers server) items texts)
    (others : List (List UInt8)) : answerAll server (items ++ others) =
      { answerAll server others with texts := texts ++ (answerAll server others).texts } := by
  induction h with
  | nil => rfl
  | cons hanswer _ ih =>
      obtain ⟨response, hresponse, rfl⟩ := answers_iff.mp hanswer
      rw [List.cons_append, answerAll, hresponse]
      dsimp only
      rw [ih]
      rfl

theorem answerAll_eq (h : List.Forall₂ (Answers server) items texts) :
    answerAll server items = .complete texts := by
  have hall := answerAll_append h []
  rw [List.append_nil] at hall
  rw [hall]
  simp [answerAll, Sent.complete]

theorem answerAll_of_fault {fault : Fault} (h : List.Forall₂ (Answers server) items texts)
    (hrequest : handle server request = .error fault) :
    answerAll server (items ++ request :: others) = { texts, fault } := by
  rw [answerAll_append h, answerAll, hrequest]
  simp

theorem exists_answers (h : ∀ request ∈ items, Shallow server.interpreter request) :
    ∃ texts, List.Forall₂ (Answers server) items texts := by
  induction items with
  | nil => exact ⟨[], .nil⟩
  | cons request items ih =>
      obtain ⟨hrequest, hitems⟩ := List.forall_mem_cons.mp h
      obtain ⟨response, hresponse⟩ := exists_handle hrequest
      obtain ⟨texts, htexts⟩ := ih hitems
      exact ⟨response.line :: texts, .cons (answers_line hresponse) htexts⟩

theorem answers_unique (h : List.Forall₂ (Answers server) items texts)
    (hlater : List.Forall₂ (Answers server) items later) : texts = later := by
  have hsame := (answerAll_eq h).symm.trans (answerAll_eq hlater)
  exact congrArg Sent.texts hsame

theorem Answered.append (hcut : Cut first lines waiting)
    (htexts : List.Forall₂ (Answers server) (requests lines) texts)
    (hlater : Answered server (waiting ++ second) later) :
    Answered server (first ++ second) (texts ++ later) := by
  obtain ⟨others, rest, hothers, hmatched⟩ := hlater
  refine ⟨lines ++ others, rest, hcut.append hothers, ?_⟩
  rw [requests_append]
  exact List.rel_append htexts hmatched

theorem answered_of_free (h : newline ∉ waiting) : Answered server waiting [] :=
  ⟨[], waiting, ⟨rfl, by simp, h⟩, .nil⟩

theorem Answered.forall₂ (h : Answered server bytes texts) (hcut : Cut bytes lines rest) :
    List.Forall₂ (Answers server) (requests lines) texts := by
  obtain ⟨lines', rest', hcut', htexts⟩ := h
  obtain ⟨rfl, -⟩ := Prod.mk.inj (hcut.cutLines_eq.symm.trans hcut'.cutLines_eq)
  exact htexts

theorem receive_eq (hcut : Cut (waiting ++ chunk) lines rest)
    (htexts : List.Forall₂ (Answers server) (requests lines) texts) :
    receive server waiting chunk = (.complete texts, rest) := by
  unfold receive
  rw [hcut.cutLines_eq]
  dsimp only
  rw [answerAll_eq htexts]

theorem serve_cons (hchunk : chunk ≠ [])
    (h : receive server waiting chunk = (.complete texts, rest)) :
    serve server waiting (chunk :: chunks) = .complete texts :: serve server rest chunks := by
  simp only [serve, h]
  rfl

/-- A request without an answer ends the connection. The lines before it have been answered. -/
theorem serve_of_fault {fault : Fault} (hchunk : chunk ≠ [])
    (hcut : Cut (waiting ++ chunk) lines rest)
    (hlines : requests lines = items ++ request :: others)
    (htexts : List.Forall₂ (Answers server) items texts)
    (hrequest : handle server request = .error fault) :
    serve server waiting (chunk :: chunks) = [{ texts, fault }] := by
  have hreceive : receive server waiting chunk = ({ texts, fault }, rest) := by
    unfold receive
    rw [hcut.cutLines_eq]
    dsimp only
    rw [hlines, answerAll_of_fault htexts hrequest]
  simp only [serve, hreceive]

theorem exists_of_serve_cons (hchunk : chunk ≠ [])
    (h : serve server waiting (chunk :: chunks) = sent.map .complete) :
    ∃ texts rest later, receive server waiting chunk = (.complete texts, rest) ∧
      serve server rest chunks = later.map .complete ∧ sent = texts :: later := by
  simp only [serve] at h
  generalize receive server waiting chunk = received at h
  obtain ⟨⟨shown, fault⟩, rest⟩ := received
  dsimp only at h
  cases fault with
  | none =>
      obtain ⟨texts, later, rfl, htexts, hlater⟩ := List.map_eq_cons_iff.mp h.symm
      exact ⟨texts, rest, later, congrArg (·, rest) htexts.symm, hlater.symm, rfl⟩
  | some fault =>
      obtain ⟨texts, later, -, htexts, -⟩ := List.map_eq_cons_iff.mp h.symm
      cases congrArg Sent.fault htexts

theorem ShallowLines.split (h : ShallowLines interpreter (first ++ second))
    (hcut : Cut first lines rest) :
    (∀ request ∈ requests lines, Shallow interpreter request) ∧
      ShallowLines interpreter (rest ++ second) := by
  constructor
  · intro request hrequest
    apply h _ _ (hcut.append (cutLines_cut (rest ++ second)))
    rw [requests_append]
    exact List.mem_append_left _ hrequest
  · intro others last hothers request hrequest
    apply h _ _ (hcut.append hothers)
    rw [requests_append]
    exact List.mem_append_right _ hrequest

theorem exists_serve (hchunks : ∀ chunk ∈ chunks, chunk ≠ []) (hwaiting : newline ∉ waiting)
    (hshallow : ShallowLines server.interpreter (waiting ++ chunks.flatten)) :
    ∃ sent : List (List String), serve server waiting chunks = sent.map .complete ∧
      sent.length = chunks.length + 1 ∧
      ∀ count, Answered server (waiting ++ (chunks.take count).flatten)
        (sent.take count).flatten := by
  -- What waits holds no newline, so it is the start of the next line.
  induction chunks generalizing waiting with
  | nil =>
      refine ⟨[[]], rfl, rfl, ?_⟩
      intro count
      have hnothing : (List.take count [([] : List String)]).flatten = [] := by
        cases count <;> simp
      rw [hnothing, List.take_nil, List.flatten_nil, List.append_nil]
      exact answered_of_free hwaiting
  | cons chunk chunks ih =>
      obtain ⟨hchunk, hchunks⟩ := List.forall_mem_cons.mp hchunks
      rw [List.flatten_cons, ← List.append_assoc] at hshallow
      have hcut := cutLines_cut (waiting ++ chunk)
      obtain ⟨hfirst, hlater⟩ := hshallow.split hcut
      obtain ⟨texts, htexts⟩ := exists_answers hfirst
      obtain ⟨sent, hsent, hlength, hanswered⟩ := ih hchunks hcut.rest_free hlater
      refine ⟨texts :: sent, ?_, by simp [hlength], ?_⟩
      · rw [serve_cons hchunk (receive_eq hcut htexts), hsent, List.map_cons]
      · intro count
        cases count with
        | zero =>
            rw [List.take_zero, List.take_zero, List.flatten_nil, List.append_nil]
            exact answered_of_free hwaiting
        | succ count =>
            rw [List.take_succ_cons, List.take_succ_cons, List.flatten_cons, List.flatten_cons,
              ← List.append_assoc]
            exact Answered.append hcut htexts (hanswered count)

theorem answered_flatten (hlength : sent.length = chunks.length + 1)
    (h : ∀ count, Answered server (chunks.take count).flatten (sent.take count).flatten) :
    Answered server chunks.flatten sent.flatten := by
  have hlast := h sent.length
  rwa [List.take_of_length_le (by omega), List.take_length] at hlast

theorem exists_serve_of_requests_eq {lines' : List (List UInt8)} {rest' : List UInt8}
    (hothers : ∀ chunk ∈ others, chunk ≠ [])
    (hshallow : ShallowLines server.interpreter bytes) (htexts : Answered server bytes texts)
    (hcut : Cut bytes lines rest) (hcut' : Cut others.flatten lines' rest')
    (hrequests : requests lines' = requests lines) :
    ∃ again : List (List String), serve server [] others = again.map .complete ∧
      again.flatten = texts := by
  have hagain : ShallowLines server.interpreter ([] ++ others.flatten) := by
    intro lines₂ rest₂ hcut₂ request hrequest
    obtain ⟨rfl, -⟩ := Prod.mk.inj (hcut'.cutLines_eq.symm.trans hcut₂.cutLines_eq)
    apply hshallow _ _ hcut
    rwa [← hrequests]
  obtain ⟨again, hserve, hlength, hanswered⟩ := exists_serve hothers List.not_mem_nil hagain
  refine ⟨again, hserve, ?_⟩
  have hall := (answered_flatten hlength hanswered).forall₂ hcut'
  rw [hrequests] at hall
  exact answers_unique hall (htexts.forall₂ hcut)

variable {Client : Type} [DecidableEq Client] {client other : Client}
variable {connections : Connections Client} {arrivals : List (Client × List UInt8)}

theorem ownOf_cons {α : Type} (sender : Client) (entry : α) (entries : List (Client × α)) :
    ownOf client ((sender, entry) :: entries) =
      if sender = client then entry :: ownOf client entries else ownOf client entries := by
  unfold ownOf
  split <;> simp [*]

theorem receive_other (h : client ≠ other) :
    (connections.receive server other chunk).2 client = connections client := by
  unfold Connections.receive Connections.set
  split
  · rfl
  · split
    · exact if_neg h
    · dsimp only
      split <;> exact if_neg h

theorem receive_own (hclient : connections client = some waiting) (hchunk : chunk ≠ [])
    (h : receive server waiting chunk = (.complete texts, rest)) :
    connections.receive server client chunk =
      (.complete texts, connections.set client (some rest)) := by
  unfold Connections.receive
  simp only [hclient, if_neg hchunk, h]
  rfl

theorem serveAll_own (hclient : connections client = some waiting)
    (hchunks : ∀ chunk ∈ ownOf client arrivals, chunk ≠ [])
    (h : serve server waiting (ownOf client arrivals) = sent.map .complete) :
    ownOf client (serveAll server connections arrivals) =
      (sent.take (ownOf client arrivals).length).map .complete := by
  -- Only what waits for this client matters; the other connections can be in any state.
  induction arrivals generalizing connections waiting sent with
  | nil => rfl
  | cons arrival arrivals ih =>
      obtain ⟨sender, chunk⟩ := arrival
      rw [ownOf_cons] at h hchunks ⊢
      rw [serveAll, ownOf_cons]
      by_cases hsender : sender = client
      · subst hsender
        rw [if_pos rfl] at h hchunks ⊢
        obtain ⟨hchunk, hchunks⟩ := List.forall_mem_cons.mp hchunks
        obtain ⟨texts, rest, later, hreceive, hlater, rfl⟩ :=
          exists_of_serve_cons hchunk h
        have hwaits : connections.set sender (some rest) sender = some rest := if_pos rfl
        rw [receive_own hclient hchunk hreceive, if_pos rfl, ih hwaits hchunks hlater]
        rfl
      · rw [if_neg hsender] at h hchunks ⊢
        have hkept : (connections.receive server sender chunk).2 client = some waiting :=
          (receive_other (Ne.symm hsender)).trans hclient
        rw [if_neg hsender, ih hkept hchunks h]

end

/-- Whatever the chunks, after each of them exactly the complete lines that have come are answered.
So what is sent is the same for other chunks of the same bytes, with an unfinished line after them,
with carriage returns before the newlines, and among the chunks of other clients. -/
theorem sent_follows_bytes (server : Server) (chunks : List (List UInt8))
    (hchunks : ∀ chunk ∈ chunks, chunk ≠ [])
    (hshallow : ShallowLines server.interpreter chunks.flatten) :
    ∃ sent : List (List String), serve server [] chunks = sent.map .complete ∧
      sent.length = chunks.length + 1 ∧
      (∀ count, Answered server (chunks.take count).flatten (sent.take count).flatten) ∧
      (∀ others tail, (∀ chunk ∈ others, chunk ≠ []) → newline ∉ tail →
        others.flatten = chunks.flatten ++ tail →
          ∃ again : List (List String), serve server [] others = again.map .complete ∧
            again.flatten = sent.flatten) ∧
      (∀ others, (∀ chunk ∈ others, chunk ≠ []) → others.flatten = withReturns chunks.flatten →
        ∃ again : List (List String), serve server [] others = again.map .complete ∧
          again.flatten = sent.flatten) ∧
      ∀ (Client : Type) [DecidableEq Client] (client : Client)
        (arrivals : List (Client × List UInt8)), ownOf client arrivals = chunks →
          ownOf client (serveAll server (fun _ => some []) arrivals) =
            (sent.take chunks.length).map .complete := by
  obtain ⟨sent, hserve, hlength, hanswered⟩ := exists_serve hchunks List.not_mem_nil hshallow
  have hwhole := answered_flatten hlength hanswered
  have hcut := cutLines_cut chunks.flatten
  refine ⟨sent, hserve, hlength, hanswered, ?_, ?_, ?_⟩
  · intro others tail hothers htail hbytes
    have hlonger := hcut.append_free htail
    rw [← hbytes] at hlonger
    exact exists_serve_of_requests_eq hothers hshallow hwhole hcut hlonger rfl
  · intro others hothers hbytes
    have hreturned := hcut.returned
    rw [← hbytes] at hreturned
    exact exists_serve_of_requests_eq hothers hshallow hwhole hcut hreturned requests_returned
  · rintro Client _ client arrivals rfl
    exact serveAll_own rfl hchunks hserve

theorem fromUTF8?_braces : String.fromUTF8? (ByteArray.mk #[123, 125]) = some "\x7b\x7d" := by
  decide

theorem decode_braces : Json.decode 2 "\x7b\x7d".toList = .ok (.object []) := by
  have htokens : Json.tokens "\x7b\x7d".toList = [.openObject, .closeObject] := by
    simp [Json.tokens, Json.Token.next, Json.Token.isSpace]
  rw [Json.decode, htokens]
  rfl

theorem handle_braces (strict : Bool) (explain : List UInt8 → String) :
    handle { interpreter := { strict, levels := 2 }, explain } [123, 125] =
      .ok (.error "Unknown cmd: None") := by
  simp only [handle, fromUTF8?_braces, decode_braces]
  rfl

/-- An empty object that comes in two chunks, with the start of another after it. -/
theorem sent_after_split_line :
    serve { interpreter := { strict := false, levels := 2 }, explain := fun _ => "" } []
        [[123], [125, 13, 10, 123]] =
      [.complete [],
        .complete ["\x7b\"ok\": false, \"error\": \"Unknown cmd: None\"\x7d\n"],
        .complete []] := by
  have hnothing : Cut [123] [] [123] := ⟨rfl, by decide, by decide⟩
  have hcut : Cut [123, 125, 13, 10, 123] [[123, 125, 13]] [123] :=
    ⟨rfl, by decide, by decide⟩
  have hobject : requests [[123, 125, 13]] = [[123, 125]] := by decide
  have hshallow :
      ShallowLines { strict := false, levels := 2 } [123, 125, 13, 10, 123] := by
    intro lines rest hlines request hrequest
    obtain ⟨rfl, -⟩ := Prod.mk.inj (hcut.cutLines_eq.symm.trans hlines.cutLines_eq)
    rw [hobject, List.mem_singleton] at hrequest
    subst hrequest
    intro text htext
    obtain rfl := Option.some.inj (fromUTF8?_braces.symm.trans htext)
    rw [decode_braces]
    rintro ⟨⟩
  obtain ⟨sent, hserve, hlength, hanswered, -⟩ :=
    sent_follows_bytes
      { interpreter := { strict := false, levels := 2 }, explain := fun _ => "" }
      [[123], [125, 13, 10, 123]] (by decide) hshallow
  have hfirst := (hanswered 1).forall₂ hnothing
  have hsecond := (hanswered 2).forall₂ hcut
  have hlast := (hanswered 3).forall₂ hcut
  rw [hobject] at hsecond hlast
  have hanswer := List.Forall₂.cons (answers_line (handle_braces false fun _ => "")) .nil
  have hline : Response.line (.error "Unknown cmd: None") =
      "\x7b\"ok\": false, \"error\": \"Unknown cmd: None\"\x7d\n" := by
    decide
  obtain ⟨first, second, last, rfl⟩ := List.length_eq_three.mp hlength
  obtain rfl : first = [] := by simpa using answers_unique hfirst .nil
  obtain rfl : second = [Response.line (.error "Unknown cmd: None")] := by
    simpa using answers_unique hsecond hanswer
  obtain rfl : last = [] := by simpa using answers_unique hlast hanswer
  rw [hserve, hline]
  rfl

end SmallLisp.Service

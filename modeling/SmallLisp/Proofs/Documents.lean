import Mathlib.Data.List.Induction
import SmallLisp.Editor.Session
import SmallLisp.Proofs.Analysis

namespace SmallLisp.Editor

open Document (Report)

def eventsOn (uri : String) (events : List Event) : List Event :=
  events.filter fun event => event.uri = uri

def publishedOn (uri : String) (publications : List Publication) : List Publication :=
  publications.filter fun publication => publication.uri = uri

/-- The text that an event leaves, from the text before it; none stands for a name that has no
document. -/
def Event.textAfter (current : Option (List Char)) : Event → Option (List Char)
  | .opened _ text => some (text.getD [])
  | .changed _ texts => some (texts.getLast?.getD (current.getD []))
  | .closed _ => none

def latestText (uri : String) (events : List Event) : Option (List Char) :=
  (eventsOn uri events).foldl Event.textAfter none

def Session.reportsOn (session : Session) (uri : String) : List Report :=
  (session.document? uri).elim [] OpenDocument.reports

/-- What a session holds about a name, and what was published about it last, match the events on
the name. -/
structure Matches (events : List Event) (session : Session) (publications : List Publication)
    (uri : String) : Prop where
  open_iff : (session.document? uri).isSome ↔
    ∃ event, (eventsOn uri events).getLast? = some event ∧ event ≠ .closed uri
  text_eq : (session.document? uri).map OpenDocument.text = latestText uri events
  reports_eq : ∀ document, session.document? uri = some document →
    Document.analyze session.interpreter document.text = .ok document.reports
  reports_sorted : ((session.reportsOn uri).map Report.line).Pairwise (· < ·)
  published_eq : ∀ publication, (publishedOn uri publications).getLast? = some publication →
    publication.diagnostics.map some =
      ((session.reportsOn uri).filter fun report => !report.ok).map diagnostic?

namespace Session

variable {session : Session} {uri : String}

theorem lookup_cons (name : String) (document : OpenDocument)
    (entries : List (String × OpenDocument)) (other : String) :
    ((name, document) :: entries).lookup other =
      if other = name then some document else entries.lookup other := by
  by_cases hother : other = name
  · simp [hother]
  · rw [List.lookup_cons, beq_false_of_ne hother, if_neg hother]

theorem lookup_filter (entries : List (String × OpenDocument)) (other : String) :
    (entries.filter fun entry => entry.1 ≠ uri).lookup other =
      if other = uri then none else entries.lookup other := by
  induction entries with
  | nil => simp
  | cons entry entries ih =>
      obtain ⟨name, document⟩ := entry
      rw [List.filter_cons, lookup_cons]
      by_cases hname : name = uri
      · subst hname
        simp only [ne_eq, not_true_eq_false, decide_false, Bool.false_eq_true, if_false]
        rw [ih]
        split <;> rfl
      · simp only [ne_eq, hname, not_false_eq_true, decide_true, if_true]
        rw [lookup_cons, ih]
        by_cases hother : other = name
        · simp [hother, hname]
        · simp [hother]

theorem document?_put (document : OpenDocument) (other : String) :
    (session.put uri document).document? other =
      if other = uri then some document else session.document? other := by
  unfold put document?
  dsimp only
  rw [lookup_cons, lookup_filter]
  split <;> rfl

theorem document?_erase (other : String) :
    (session.erase uri).document? other =
      if other = uri then none else session.document? other :=
  lookup_filter session.documents other

end Session

theorem map_some_filterMap_diagnostic? (reports : List Report) :
    (reports.filterMap diagnostic?).map some =
      (reports.filter fun report => !report.ok).map diagnostic? := by
  induction reports with
  | nil => rfl
  | cons report reports ih =>
      obtain ⟨line, start, stop, finding⟩ := report
      cases finding with
      | result text => exact ih
      | error message column =>
          cases column with
          | none => exact congrArg (List.cons _) ih
          | some column => exact congrArg (List.cons _) ih

/-- All that an event does: it sets the text of its own document, reports on it, and publishes what
is then held about it. -/
structure Step (session : Session) (event : Event) (next : Session) (publication : Publication) :
    Prop where
  interpreter_eq : next.interpreter = session.interpreter
  other_eq : ∀ uri, uri ≠ event.uri → next.document? uri = session.document? uri
  text_eq : (next.document? event.uri).map OpenDocument.text =
    event.textAfter ((session.document? event.uri).map OpenDocument.text)
  reports_eq : ∀ document, next.document? event.uri = some document →
    Document.analyze session.interpreter document.text = .ok document.reports
  publication_eq : publication =
    { uri := event.uri, diagnostics := (next.reportsOn event.uri).filterMap diagnostic? }

section
variable {session next middle last : Session} {event : Event} {events : List Event}
variable {publication : Publication} {publications : List Publication} {uri : String}

theorem exists_update_step (text : List Char) (huri : event.uri = uri)
    (htext : event.textAfter ((session.document? uri).map OpenDocument.text) = some text) :
    ∃ next publication, session.update uri text = .ok (next, publication) ∧
      Step session event next publication := by
  obtain ⟨reports, hreports, -⟩ := Document.exists_analyze session.interpreter text
  subst huri
  refine ⟨session.put event.uri { text, reports }, _, ?_, rfl, ?_, ?_, ?_, rfl⟩
  · unfold Session.update
    rw [hreports]
    simp only [Session.reportsOn, Session.document?_put]
    rfl
  · intro other hother
    rw [Session.document?_put, if_neg hother]
  · rw [Session.document?_put, if_pos rfl, htext]
    rfl
  · intro document hdocument
    rw [Session.document?_put, if_pos rfl] at hdocument
    obtain rfl := Option.some.inj hdocument
    exact hreports

theorem exists_step (session : Session) (event : Event) :
    ∃ next publication, session.apply event = .ok (next, publication) ∧
      Step session event next publication := by
  cases event with
  | opened uri text => exact exists_update_step (text.getD []) rfl rfl
  | changed uri texts =>
      have htext : (Event.changed uri texts).textAfter
          ((session.document? uri).map OpenDocument.text) =
            some (texts.getLast?.getD ((session.document? uri).elim [] OpenDocument.text)) := by
        cases session.document? uri <;> rfl
      exact exists_update_step _ rfl htext
  | closed uri =>
      have hclosed : (session.erase uri).document? uri = none := by
        rw [Session.document?_erase, if_pos rfl]
      refine ⟨_, _, rfl, rfl, ?_, ?_, ?_, ?_⟩
      · intro other hother
        exact (Session.document?_erase other).trans (if_neg hother)
      · change ((session.erase uri).document? uri).map OpenDocument.text = none
        rw [hclosed]
        rfl
      · intro document hdocument
        cases hclosed.symm.trans hdocument
      · change _ = Publication.mk uri (((session.erase uri).reportsOn uri).filterMap diagnostic?)
        simp [Session.reportsOn, hclosed]

theorem Step.own_eq {other otherNext : Session} {published : Publication}
    (h : Step session event next publication) (hother : Step other event otherNext published)
    (hinterpreter : other.interpreter = session.interpreter)
    (hdocument : other.document? event.uri = session.document? event.uri) :
    otherNext.document? event.uri = next.document? event.uri ∧ published = publication := by
  have htext : (otherNext.document? event.uri).map OpenDocument.text =
      (next.document? event.uri).map OpenDocument.text := by
    rw [h.text_eq, hother.text_eq, hdocument]
  have hnext : otherNext.document? event.uri = next.document? event.uri := by
    cases hleft : otherNext.document? event.uri with
    | none =>
        rw [hleft] at htext
        exact (Option.map_eq_none_iff.mp htext.symm).symm
    | some left =>
        obtain ⟨right, hright, htext⟩ : ∃ right, next.document? event.uri = some right ∧
            right.text = left.text := by
          rw [hleft] at htext
          exact Option.map_eq_some_iff.mp htext.symm
        have hreports := hother.reports_eq left hleft
        rw [hinterpreter, ← htext, h.reports_eq right hright] at hreports
        obtain ⟨text, reports⟩ := left
        obtain ⟨text', reports'⟩ := right
        cases hreports
        cases htext
        rw [hright]
  refine ⟨hnext, ?_⟩
  rw [h.publication_eq, hother.publication_eq, Session.reportsOn, Session.reportsOn, hnext]

theorem run_cons_ok_iff :
    session.run (event :: events) = .ok (last, publications) ↔
      ∃ next publication others, session.apply event = .ok (next, publication) ∧
        next.run events = .ok (last, others) ∧ publications = publication :: others := by
  rw [Session.run]
  constructor
  · intro h
    cases hstep : session.apply event with
    | error fault => simp [hstep, bind, Except.bind] at h
    | ok result =>
        obtain ⟨next, publication⟩ := result
        cases hrun : next.run events with
        | error fault => simp [hstep, hrun, bind, Except.bind] at h
        | ok result =>
            simp only [hstep, hrun, bind, Except.bind, pure, Except.pure, Except.ok.injEq,
              Prod.mk.injEq] at h
            obtain ⟨rfl, rfl⟩ := h
            exact ⟨next, publication, _, rfl, hrun, rfl⟩
  · rintro ⟨next, publication, others, hstep, hrun, rfl⟩
    rw [hstep]
    dsimp only [bind, Except.bind]
    rw [hrun]
    rfl

theorem step_of_apply (h : session.apply event = .ok (next, publication)) :
    Step session event next publication := by
  obtain ⟨_, _, happly, hstep⟩ := exists_step session event
  cases h.symm.trans happly
  exact hstep

theorem run_concat (hrun : session.run events = .ok (middle, publications))
    (happly : middle.apply event = .ok (last, publication)) :
    session.run (events ++ [event]) = .ok (last, publications ++ [publication]) := by
  induction events generalizing session publications with
  | nil =>
      cases hrun
      exact run_cons_ok_iff.mpr ⟨last, publication, [], happly, rfl, rfl⟩
  | cons first events ih =>
      obtain ⟨next, published, others, hfirst, hothers, rfl⟩ := run_cons_ok_iff.mp hrun
      exact run_cons_ok_iff.mpr ⟨next, published, _, hfirst, ih hothers, rfl⟩

theorem eventsOn_concat :
    eventsOn uri (events ++ [event]) =
      if event.uri = uri then eventsOn uri events ++ [event] else eventsOn uri events := by
  unfold eventsOn
  split <;> simp [*]

theorem publishedOn_concat :
    publishedOn uri (publications ++ [publication]) =
      if publication.uri = uri then publishedOn uri publications ++ [publication]
      else publishedOn uri publications := by
  unfold publishedOn
  split <;> simp [*]

theorem textAfter_isSome {current : Option (List Char)} :
    (event.textAfter current).isSome ↔ event ≠ .closed event.uri := by
  cases event <;> simp [Event.textAfter, Event.uri]

theorem reportsOn_sorted
    (h : ∀ document, session.document? uri = some document →
      Document.analyze session.interpreter document.text = .ok document.reports) :
    ((session.reportsOn uri).map Report.line).Pairwise (· < ·) := by
  unfold Session.reportsOn
  cases hdocument : session.document? uri with
  | none => exact .nil
  | some document =>
      obtain ⟨reports, hreports, hsorted⟩ :=
        Document.exists_analyze session.interpreter document.text
      cases (h document hdocument).symm.trans hreports
      exact hsorted

theorem Matches.step_own (h : Matches events session publications event.uri)
    (hstep : Step session event next publication) :
    Matches (events ++ [event]) next (publications ++ [publication]) event.uri := by
  have hname : publication.uri = event.uri := by rw [hstep.publication_eq]
  have hreports : ∀ document, next.document? event.uri = some document →
      Document.analyze next.interpreter document.text = .ok document.reports := by
    rw [hstep.interpreter_eq]
    exact hstep.reports_eq
  refine ⟨?_, ?_, hreports, reportsOn_sorted hreports, ?_⟩
  · rw [eventsOn_concat, if_pos rfl, List.getLast?_concat, ← Option.isSome_map,
      hstep.text_eq, textAfter_isSome]
    simp
  · rw [hstep.text_eq, h.text_eq, latestText, latestText, eventsOn_concat, if_pos rfl,
      List.foldl_append]
    rfl
  · intro last hlast
    rw [publishedOn_concat, if_pos hname, List.getLast?_concat] at hlast
    cases hlast
    rw [hstep.publication_eq]
    exact map_some_filterMap_diagnostic? _

theorem Matches.step_other (h : Matches events session publications uri)
    (hstep : Step session event next publication) (hother : event.uri ≠ uri) :
    Matches (events ++ [event]) next (publications ++ [publication]) uri := by
  have hname : publication.uri ≠ uri := by rwa [hstep.publication_eq]
  have hdocument := hstep.other_eq uri hother.symm
  have hreports : next.reportsOn uri = session.reportsOn uri := by
    rw [Session.reportsOn, hdocument]
    rfl
  refine ⟨?_, ?_, ?_, ?_, ?_⟩
  · rw [hdocument, eventsOn_concat, if_neg hother]
    exact h.open_iff
  · rw [hdocument, latestText, eventsOn_concat, if_neg hother]
    exact h.text_eq
  · rw [hdocument, hstep.interpreter_eq]
    exact h.reports_eq
  · rw [hreports]
    exact h.reports_sorted
  · rw [hreports, publishedOn_concat, if_neg hname]
    exact h.published_eq

theorem Matches.step (h : Matches events session publications uri)
    (hstep : Step session event next publication) :
    Matches (events ++ [event]) next (publications ++ [publication]) uri := by
  by_cases hown : event.uri = uri
  · subst hown
    exact h.step_own hstep
  · exact h.step_other hstep hown

theorem matches_fresh (interpreter : Interpreter) : Matches [] { interpreter } [] uri where
  open_iff := by simp [Session.document?, eventsOn]
  text_eq := rfl
  reports_eq := by simp [Session.document?]
  reports_sorted := .nil
  published_eq := by simp [publishedOn]

theorem exists_run_matches (interpreter : Interpreter) (events : List Event) :
    ∃ session publications, Session.run { interpreter } events = .ok (session, publications) ∧
      session.interpreter = interpreter ∧
        publications.map Publication.uri = events.map Event.uri ∧
          ∀ uri, Matches events session publications uri := by
  induction events using List.reverseRecOn with
  | nil => exact ⟨{ interpreter }, [], rfl, rfl, rfl, fun _ => matches_fresh interpreter⟩
  | append_singleton events event ih =>
      obtain ⟨session, publications, hrun, hinterpreter, hnames, hmatches⟩ := ih
      obtain ⟨next, publication, happly, hstep⟩ := exists_step session event
      refine ⟨next, _, run_concat hrun happly, ?_, ?_, fun uri => (hmatches uri).step hstep⟩
      · rw [hstep.interpreter_eq, hinterpreter]
      · rw [List.map_append, List.map_append, hnames, hstep.publication_eq]
        rfl

/-- A run says of a name what the run of the events on that name alone says. -/
theorem run_eventsOn {alone : Session} (hrun : session.run events = .ok (last, publications))
    (hinterpreter : alone.interpreter = session.interpreter)
    (hdocument : alone.document? uri = session.document? uri) :
    ∃ lastAlone, alone.run (eventsOn uri events) = .ok (lastAlone, publishedOn uri publications) ∧
      lastAlone.document? uri = last.document? uri := by
  -- The two sessions agree on this name all along, whatever else the first of them holds.
  induction events generalizing session alone publications with
  | nil =>
      cases hrun
      exact ⟨alone, rfl, hdocument⟩
  | cons event events ih =>
      obtain ⟨next, publication, others, happly, hothers, rfl⟩ := run_cons_ok_iff.mp hrun
      have hstep := step_of_apply happly
      have hname : publication.uri = event.uri := by rw [hstep.publication_eq]
      by_cases hown : event.uri = uri
      · subst hown
        obtain ⟨nextAlone, published, happlyAlone, hstepAlone⟩ := exists_step alone event
        obtain ⟨hsame, rfl⟩ := hstep.own_eq hstepAlone hinterpreter hdocument
        have hkept : nextAlone.interpreter = next.interpreter := by
          rw [hstepAlone.interpreter_eq, hstep.interpreter_eq, hinterpreter]
        obtain ⟨lastAlone, hrunAlone, hlast⟩ := ih hothers hkept hsame
        refine ⟨lastAlone, ?_, hlast⟩
        have hevents : eventsOn event.uri (event :: events) = event :: eventsOn event.uri events :=
          List.filter_cons_of_pos (by simp)
        have hpublished : publishedOn event.uri (published :: others) =
            published :: publishedOn event.uri others :=
          List.filter_cons_of_pos (by simp [hname])
        rw [hevents, hpublished]
        exact run_cons_ok_iff.mpr ⟨nextAlone, published, _, happlyAlone, hrunAlone, rfl⟩
      · have hkept : alone.interpreter = next.interpreter := by
          rw [hstep.interpreter_eq, hinterpreter]
        have hsame : alone.document? uri = next.document? uri := by
          rw [hstep.other_eq uri (Ne.symm hown), hdocument]
        obtain ⟨lastAlone, hrunAlone, hlast⟩ := ih hothers hkept hsame
        refine ⟨lastAlone, ?_, hlast⟩
        have hevents : eventsOn uri (event :: events) = eventsOn uri events :=
          List.filter_cons_of_neg (by simp [hown])
        have hpublished : publishedOn uri (publication :: others) = publishedOn uri others :=
          List.filter_cons_of_neg (by simp [hname, hown])
        rw [hevents, hpublished]
        exact hrunAlone

theorem run_congr {interpreter : Interpreter} {others : List Event} {session last : Session}
    {publications published : List Publication}
    (hrun : Session.run { interpreter } events = .ok (session, publications))
    (hothers : Session.run { interpreter } others = .ok (last, published))
    (hevents : eventsOn uri others = eventsOn uri events) :
    last.document? uri = session.document? uri ∧
      publishedOn uri published = publishedOn uri publications := by
  have hfresh : Session.document? { interpreter } uri = Session.document? { interpreter } uri := rfl
  obtain ⟨alone, halone, hdocument⟩ := run_eventsOn hrun rfl hfresh
  obtain ⟨alone', halone', hdocument'⟩ := run_eventsOn hothers rfl hfresh
  rw [hevents, halone] at halone'
  obtain ⟨rfl, hpublished⟩ := Prod.mk.inj (Except.ok.inj halone')
  exact ⟨hdocument'.symm.trans hdocument, hpublished.symm⟩

theorem eventsOn_swap {before after : List Event} {first second : Event}
    (h : first.uri ≠ second.uri) (uri : String) :
    eventsOn uri (before ++ second :: first :: after) =
      eventsOn uri (before ++ first :: second :: after) := by
  unfold eventsOn
  rw [List.filter_append, List.filter_append]
  congr 1
  by_cases hfirst : first.uri = uri
  · have hsecond : ¬ second.uri = uri := fun hsecond => h (hfirst.trans hsecond.symm)
    simp [hfirst, hsecond]
  · simp [List.filter_cons, hfirst]

end

/-- After any events, whatever a session holds and has published about a name matches the latest
text of that name, and is the same after any events that are the same on that name; so events on
different names commute. -/
theorem documents_match_latest_text (interpreter : Interpreter) (events : List Event) :
    ∃ session publications,
      Session.run { interpreter } events = .ok (session, publications) ∧
      session.interpreter = interpreter ∧
      publications.map Publication.uri = events.map Event.uri ∧
      (∀ uri, Matches events session publications uri) ∧
      (∀ uri others, eventsOn uri others = eventsOn uri events →
        ∃ last published, Session.run { interpreter } others = .ok (last, published) ∧
          last.document? uri = session.document? uri ∧
          (∀ line column, last.hover? uri line column = session.hover? uri line column) ∧
          publishedOn uri published = publishedOn uri publications) ∧
      ∀ before first second after, events = before ++ first :: second :: after →
        first.uri ≠ second.uri →
          ∃ last published,
            Session.run { interpreter } (before ++ second :: first :: after) =
              .ok (last, published) ∧
            ∀ uri, last.document? uri = session.document? uri ∧
              (∀ line column, last.hover? uri line column = session.hover? uri line column) ∧
              publishedOn uri published = publishedOn uri publications := by
  obtain ⟨session, publications, hrun, hinterpreter, hnames, hmatches⟩ :=
    exists_run_matches interpreter events
  refine ⟨session, publications, hrun, hinterpreter, hnames, hmatches, ?_, ?_⟩
  · intro uri others hothers
    obtain ⟨last, published, hlast, -⟩ := exists_run_matches interpreter others
    obtain ⟨hdocument, hpublished⟩ := run_congr hrun hlast hothers
    refine ⟨last, published, hlast, hdocument, fun line column => ?_, hpublished⟩
    rw [Session.hover?, hdocument, Session.hover?]
  · rintro before first second after rfl hne
    obtain ⟨last, published, hlast, -⟩ :=
      exists_run_matches interpreter (before ++ second :: first :: after)
    refine ⟨last, published, hlast, fun uri => ?_⟩
    obtain ⟨hdocument, hpublished⟩ := run_congr hrun hlast (eventsOn_swap hne uri)
    refine ⟨hdocument, fun line column => ?_, hpublished⟩
    rw [Session.hover?, hdocument, Session.hover?]

end SmallLisp.Editor

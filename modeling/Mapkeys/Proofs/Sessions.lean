import Mapkeys.Session
import Mathlib.Tactic.Common

/-!
# What a session keeps

A session keeps the document of the last question, its call graph and its layers. What it keeps is
what reading the text again gives, whatever it has been asked in between, so each answer is the one
that a new session gives (`ask_after_eq_ask_start`).
-/

namespace Mapkeys

/-- The call graph of a text under a policy. -/
def CallGraph.ofText (policy : Policy) (text : Text) : CallGraph :=
  ofDefinitions policy (Document.parse text).definitions

namespace Session

/-! ## Answers without a session -/

/-- The answer about a position of a text. -/
def located (text : Text) (position : Int) (answer : Answer) : Except QueryError Answer :=
  if 0 ≤ position ∧ position ≤ text.length then .ok answer
  else .error (.outside position text.length)

/-- The answer that follows from the text of a question alone. -/
def Query.answer (config : Config) (files : FileTree) : Query → Except QueryError Answer
  | .definitions text => .ok (.definitions (Document.parse text).definitions)
  | .records text => .ok (.records (Document.parse text).records)
  | .tokens text => .ok (.tokens (Document.parse text).tokens)
  | .graph text => .ok (.graph (.ofText config.policy text))
  | .cycles text => .ok (.cycles (CallGraph.ofText config.policy text).cycles)
  | .violations text limit? =>
    .ok (.violations ((CallGraph.ofText config.policy text).violations (limit?.getD config.limit)))
  | .depth text name => .ok (.depth ((CallGraph.ofText config.policy text).depth name))
  | .allNames text => .ok (.names (Document.parse text).allNames)
  | .definitionsOf text name => .ok (.definitions ((Document.parse text).definitionsOf name))
  | .usagesOf text name => .ok (.definitions ((Document.parse text).usagesOf name))
  | .tokenAt text position => located text position (.token ((Document.parse text).tokenAt position))
  | .recordAt text position =>
    located text position (.record ((Document.parse text).recordAt position))
  | .definitionAt text position =>
    located text position (.definition ((Document.parse text).definitionAt position))
  | .folds text => .ok (.folds (Document.parse text).folds)
  | .fileDefinitions path =>
    match files.read (Path.parse path) with
    | .error error => .error (.file error)
    | .ok text => .ok (.definitions (Document.parse text).definitions)
  | .fileRecords path =>
    match files.read (Path.parse path) with
    | .error error => .error (.file error)
    | .ok text => .ok (.records (Document.parse text).records)

/-! ## What is kept -/

/-- A revision holds what reading a text gives. -/
structure Describes (policy : Policy) (text : Text) (revision : Revision) : Prop where
  document : revision.document = Document.parse text
  graph : ∀ graph ∈ revision.graph, graph = .ofText policy text
  layers : ∀ layers ∈ revision.layers, layers = .ofGraph (.ofText policy text)

/-- A session whose last revision, if there is one, holds what reading its text gives. -/
structure Faithful (config : Config) (session : Session) : Prop where
  configured : session.config = config
  revision : ∀ revision ∈ session.revision,
    Describes config.policy revision.document.text revision

/-- A session that has last been asked about a text. -/
structure About (config : Config) (text : Text) (session : Session) : Prop where
  configured : session.config = config
  revision : ∃ revision, session.revision = some revision ∧ Describes config.policy text revision

theorem faithful_start (config : Config) : Faithful config (start config) :=
  ⟨rfl, by simp [start]⟩

theorem About.faithful {config : Config} {text : Text} {session : Session}
    (about : About config text session) : Faithful config session := by
  obtain ⟨revision, kept, describes⟩ := about.revision
  refine ⟨about.configured, fun other same => ?_⟩
  obtain rfl : revision = other := Option.some.inj (kept.symm.trans same)
  have text : revision.document.text = text := by rw [describes.document, Document.parse]
  rwa [text]

/-! ## Actions of a session -/

section

variable {α β : Type} {before between after : Session → Prop} {action : StateM Session α} {value : α}

/-- Taken in a session as described by `before`, an action gives the value and leaves a session as
    described by `after`. -/
def Gives (before : Session → Prop) (action : StateM Session α) (value : α)
    (after : Session → Prop) : Prop :=
  ∀ session, before session → (action.run session).1 = value ∧ after (action.run session).2

theorem Gives.bind {next : α → StateM Session β} {result : β}
    (first : Gives before action value between) (second : Gives between (next value) result after) :
    Gives before (action >>= next) result after := by
  intro session holds
  obtain ⟨given, left⟩ := first session holds
  have run : (action >>= next).run session =
      (next (action.run session).1).run (action.run session).2 := rfl
  rw [run, given]
  exact second _ left

theorem gives_pure (value : α) : Gives before (pure value) value before :=
  fun _ holds => ⟨rfl, holds⟩

theorem gives_modify {change : Session → Session}
    (changes : ∀ session, before session → after (change session)) :
    Gives before (modify change) () after :=
  fun session holds => ⟨rfl, changes session holds⟩

/-- What is done next may depend on the session. -/
theorem gives_get {next : Session → StateM Session α}
    (each : ∀ session, before session → Gives (· = session) (next session) value after) :
    Gives before (get >>= next) value after :=
  fun session holds => each session holds session rfl

theorem Gives.strengthen (gives : Gives between action value after)
    (implies : ∀ session, before session → between session) : Gives before action value after :=
  fun session holds => gives session (implies session holds)

theorem Gives.here {session : Session} (gives : Gives before action value after)
    (holds : before session) : Gives (· = session) action value after := by
  refine gives.strengthen ?_
  rintro _ rfl
  exact holds

/-- What has been found out about a text is told. -/
theorem Gives.reply {config : Config} {text : Text}
    (gives : Gives before action value (About config text)) (answer : α → Answer) :
    Gives before (do return (.ok (answer (← action)) : Except QueryError Answer))
      (.ok (answer value)) (Faithful config) :=
  gives.bind fun _ about => ⟨rfl, about.faithful⟩

end

section

variable (config : Config) (text : Text)

theorem gives_note (notices : List Notice) :
    Gives (About config text) (note notices) () (About config text) :=
  gives_modify fun _ about => ⟨about.configured, about.revision⟩

/-- A text is read unless it is the one that was read last. -/
theorem gives_document :
    Gives (Faithful config) (document text) (Document.parse text) (About config text) := by
  refine gives_get fun session faithful => ?_
  have fresh : Gives (· = session) (document.fresh text) (Document.parse text)
      (About config text) := by
    refine Gives.bind (gives_modify ?_) ((gives_note config text _).bind (gives_pure _))
    rintro _ rfl
    exact ⟨faithful.configured, _, rfl, rfl, by simp, by simp⟩
  cases kept : session.revision with
  | none => exact fresh
  | some revision =>
    have describes := faithful.revision revision kept
    by_cases same : revision.document.text = text
    · rw [same] at describes
      simp only [if_pos same]
      rw [describes.document]
      exact (gives_pure _).here ⟨faithful.configured, revision, kept, describes⟩
    · simp only [if_neg same]
      exact fresh

/-- The call graph is made unless it has been made since the text was read. -/
theorem gives_graph :
    Gives (Faithful config) (graph text) (.ofText config.policy text) (About config text) := by
  refine (gives_document config text).bind (gives_get fun session about => ?_)
  obtain ⟨revision, kept, describes⟩ := about.revision
  cases made : revision.graph with
  | some graph =>
    simp only [kept, Option.bind_some, made, describes.graph graph made]
    exact (gives_pure _).here about
  | none =>
    simp only [kept, Option.bind_some, made, about.configured]
    refine Gives.bind (gives_modify ?_) ((gives_note config text _).bind (gives_pure _))
    rintro _ rfl
    refine ⟨about.configured, { revision with graph := some (.ofText config.policy text) }, ?_, ?_⟩
    · rw [kept]
      rfl
    · exact ⟨describes.document, by simp, describes.layers⟩

/-- The layers are worked out unless they have been worked out since the text was read. -/
theorem gives_layers :
    Gives (Faithful config) (layers text) (.ofGraph (.ofText config.policy text))
      (About config text) := by
  refine (gives_graph config text).bind (gives_get fun session about => ?_)
  obtain ⟨revision, kept, describes⟩ := about.revision
  cases made : revision.layers with
  | some layers =>
    simp only [kept, Option.bind_some, made, describes.layers layers made]
    exact (gives_pure _).here about
  | none =>
    simp only [kept, Option.bind_some, made]
    refine Gives.bind (gives_modify ?_) (gives_pure _)
    rintro _ rfl
    refine ⟨about.configured,
      { revision with layers := some (.ofGraph (.ofText config.policy text)) }, ?_, ?_⟩
    · rw [kept]
      rfl
    · exact ⟨describes.document, describes.graph, by simp⟩

theorem gives_cycles :
    Gives (Faithful config) (cycles text) (CallGraph.ofText config.policy text).cycles
      (About config text) :=
  (gives_graph config text).bind ((gives_note config text _).bind (gives_pure _))

theorem gives_violations (limit? : Option Int) :
    Gives (Faithful config) (violations text limit?)
      ((CallGraph.ofText config.policy text).violations (limit?.getD config.limit))
      (About config text) := by
  refine (gives_graph config text).bind ?_
  refine Gives.bind ((gives_layers config text).strengthen fun _ => About.faithful) ?_
  refine gives_get fun session about => ?_
  rw [about.configured]
  exact Gives.here ((gives_note config text _).bind (gives_pure _)) about

end

/-! ## Answers -/

section

variable (config : Config)

theorem gives_locate {text : Text} {position : Int} (answer : Document → Answer) :
    Gives (Faithful config) (locate text position answer)
      (located text position (answer (Document.parse text))) (Faithful config) := by
  unfold locate located
  split_ifs
  · exact (gives_document config text).reply answer
  · exact gives_pure _

/-- One question is answered as it is without a session, and leaves what is kept right. -/
theorem gives_ask (files : FileTree) (query : Query) :
    Gives (Faithful config) (ask files query) (query.answer config files) (Faithful config) := by
  cases query with
  | definitions text =>
    exact (gives_document config text).reply fun found => .definitions found.definitions
  | records text => exact (gives_document config text).reply fun found => .records found.records
  | tokens text => exact (gives_document config text).reply fun found => .tokens found.tokens
  | graph text => exact (gives_graph config text).reply .graph
  | cycles text => exact (gives_cycles config text).reply .cycles
  | violations text limit? =>
    exact (gives_violations config text limit?).reply .violations
  | depth text name =>
    exact (gives_layers config text).reply fun layers => .depth (layers.depth name)
  | allNames text => exact (gives_document config text).reply fun found => .names found.allNames
  | definitionsOf text name =>
    exact (gives_document config text).reply fun found => .definitions (found.definitionsOf name)
  | usagesOf text name =>
    exact (gives_document config text).reply fun found => .definitions (found.usagesOf name)
  | tokenAt text position => exact gives_locate config fun found => .token (found.tokenAt position)
  | recordAt text position =>
    exact gives_locate config fun found => .record (found.recordAt position)
  | definitionAt text position =>
    exact gives_locate config fun found => .definition (found.definitionAt position)
  | folds text => exact (gives_document config text).reply fun found => .folds found.folds
  | fileDefinitions path =>
    rw [ask, Query.answer]
    cases files.read (Path.parse path) with
    | error error => exact gives_pure _
    | ok text => exact (gives_document config text).reply fun found => .definitions found.definitions
  | fileRecords path =>
    rw [ask, Query.answer]
    cases files.read (Path.parse path) with
    | error error => exact gives_pure _
    | ok text => exact gives_pure _

theorem gives_askAll (files : FileTree) (queries : List Query) :
    Gives (Faithful config) (askAll files queries) (queries.map (Query.answer config files))
      (Faithful config) := by
  induction queries with
  | nil => exact gives_pure _
  | cons query rest ih =>
    exact (gives_ask config files query).bind (ih.bind (gives_pure _))

end

/-! ## Any order of questions -/

/-- The session that has been asked questions, each with the files at hand at the time. -/
def after (config : Config) (asked : List (FileTree × Query)) : Session :=
  asked.foldl (fun session question => ((ask question.1 question.2).run session).2) (start config)

theorem faithful_after (config : Config) (asked : List (FileTree × Query)) :
    Faithful config (after config asked) := by
  unfold after
  generalize first : start config = session
  have faithful : Faithful config session := first ▸ faithful_start config
  clear first
  induction asked generalizing session with
  | nil => exact faithful
  | cons question rest ih => exact ih _ (gives_ask config question.1 question.2 session faithful).2

theorem ask_after (config : Config) (asked : List (FileTree × Query)) (files : FileTree)
    (query : Query) :
    ((ask files query).run (after config asked)).1 = query.answer config files :=
  (gives_ask config files query _ (faithful_after config asked)).1

/-- Whatever a session has been asked before, about whatever texts and files and with or without
    success, it answers a question as a new session does: from the text of the question alone. So
    questions asked one after the other are answered as each one is by itself. -/
theorem ask_after_eq_ask_start (config : Config) (files : FileTree) :
    (∀ (asked : List (FileTree × Query)) (query : Query),
      ((ask files query).run (after config asked)).1 = ((ask files query).run (start config)).1) ∧
    (∀ queries : List Query, ((askAll files queries).run (start config)).1 =
      queries.map fun query => ((ask files query).run (start config)).1) ∧
    ∀ query : Query, ((ask files query).run (start config)).1 = query.answer config files := by
  have alone (query : Query) : ((ask files query).run (start config)).1 = query.answer config files :=
    (gives_ask config files query _ (faithful_start config)).1
  refine ⟨fun asked query => ?_, fun queries => ?_, alone⟩
  · rw [alone]
    exact (gives_ask config files query _ (faithful_after config asked)).1
  · simp only [alone]
    exact (gives_askAll config files queries _ (faithful_start config)).1

end Session
end Mapkeys

import MarkdownPrep.Render.Block

/-!
# Runs of fenced blocks

What rendering a row of blocks does besides its results. `Accounted` says of one block which calls it
makes on the diagram renderer, and what it changes of the session that it finds; `Run` says so of
every block of a row, each with the session that the one before left. Over a whole run the renderer
is started once at most, right before its first Mermaid diagram (`StartedOnce`). Both hold of every
run, whatever the renderer answers and however the preferences change (`renderAll_accounted`).
-/

namespace MarkdownPrep.Render

/-- The code of a block without one newline at its end. -/
def Block.source (b : Block) : Text := Text.dropOneEnd '\n' b.code

/-- A block is a diagram of a notation, and has the marks of its notation. -/
inductive Draws (p : Preferences) (b : Block) : DiagramType → Prop
  | mermaid (route : routeOf p b.language = .mermaid) : Draws p b .mermaid
  | plantUml (route : routeOf p b.language = .plantUml)
      (first : hasTag "@start".toList (Text.trim b.source) = true)
      (last : hasTag "@end".toList (Text.trim b.source) = true) : Draws p b .plantUml
  | music (route : routeOf p b.language = .music)
      (header : hasAbcHeader (Text.trim b.source) = true) : Draws p b .music

/-- What the renderer is asked for to draw a block. -/
def Block.diagram (b : Block) (p : Preferences) (type : DiagramType) : Diagram where
  type
  source := b.source
  theme := p.theme
  server := if type = .plantUml then some p.server else none

/-- A block fails the check of its route. -/
inductive Fails (services : Services) (p : Preferences) (b : Block) : BlockError → Prop
  | blankSvg (route : routeOf p b.language = .svg)
      (blank : Text.trim (services.sanitize b.source) = []) : Fails services p b .blankSvg
  | noPlantUmlStart (route : routeOf p b.language = .plantUml)
      (first : hasTag "@start".toList (Text.trim b.source) = false) :
      Fails services p b .noPlantUmlStart
  | noPlantUmlEnd (route : routeOf p b.language = .plantUml)
      (first : hasTag "@start".toList (Text.trim b.source) = true)
      (last : hasTag "@end".toList (Text.trim b.source) = false) : Fails services p b .noPlantUmlEnd
  | noAbcHeader (route : routeOf p b.language = .music)
      (header : hasAbcHeader (Text.trim b.source) = false) : Fails services p b .noAbcHeader

/-- True for a call that starts the renderer. -/
def Call.isStart : Call → Bool
  | .start _ => true
  | .draw _ => false

/-- True for a call that asks for a diagram of the notation `type`. -/
def Call.isDraw (type : DiagramType) : Call → Bool
  | .start _ => false
  | .draw d => d.type = type

/-- What rendering a block does to the session `s` that it finds, and the calls it makes. -/
structure Accounted (services : Services) (p : Preferences) (b : Block) (s : Session)
    (r : Rendered) : Prop where
  /-- A diagram is asked for if the block is one, and it is the one of the block. -/
  draws : ∀ d, .draw d ∈ r.calls ↔ Draws p b d.type ∧ d = b.diagram p d.type
  /-- No more than one is asked for. -/
  one_draw : (r.calls.filter (!·.isStart)).length ≤ 1
  /-- The renderer is started only for a Mermaid diagram, with the theme of its block. -/
  starts : ∀ θ, .start θ ∈ r.calls →
    routeOf p b.language = .mermaid ∧ s.started = false ∧ θ = p.theme
  /-- It is started right before the first one. -/
  first : routeOf p b.language = .mermaid → s.started = false →
    r.calls = [.start p.theme, .draw (b.diagram p .mermaid)]
  started : r.session.started = true ↔ s.started = true ∨ routeOf p b.language = .mermaid
  /-- A block that fails a check is refused and leaves everything as it was. -/
  fails : ∀ e, Fails services p b e → r.output = .error e ∧ r.calls = [] ∧ r.session = s
  /-- Any other error is the renderer's. -/
  error : ∀ e, r.output = .error e → Fails services p b e ∨
    ∃ d reason, .draw d ∈ r.calls ∧ services.draw d = .error reason ∧ e = .drawing d.type reason
  /-- Only charts are watched. -/
  watcher : r.session.watcher ≠ s.watcher → ∃ tag, routeOf p b.language = .chart tag

/-- The session that a job finds when the job before it left `s`. -/
def Job.entering (job : Job) (s : Session) : Session :=
  if job.restart then { s with watcher := s.watcher.reset } else s

/-- The results `rs` of the jobs `jobs` that start with the session `s`, every one accounted for. -/
inductive Run (services : Services) : Session → List Job → List Rendered → Prop
  | nil (s : Session) : Run services s [] []
  | cons {s : Session} {job : Job} {jobs : List Job} {r : Rendered} {rs : List Rendered}
      (first : Accounted services job.preferences job.block (job.entering s) r)
      (rest : Run services r.session jobs rs) : Run services s (job :: jobs) (r :: rs)

/-- The calls of a run that began with the renderer `started` or not: it is started at most once, not
at all if it was started before, and right before the first Mermaid diagram with its theme. -/
inductive StartedOnce : Bool → List Call → Prop
  | never {started : Bool} {calls : List Call} (starts : ∀ c ∈ calls, c.isStart = false)
      (draws : started = false → ∀ c ∈ calls, c.isDraw .mermaid = false) :
      StartedOnce started calls
  | once {before after : List Call} {d : Diagram} (type : d.type = .mermaid)
      (starts : ∀ c ∈ before ++ after, c.isStart = false)
      (draws : ∀ c ∈ before, c.isDraw .mermaid = false) :
      StartedOnce false (before ++ .start d.theme :: .draw d :: after)

/-! ## One block -/

/-- True for the routes on which nothing is drawn and nothing is checked. -/
def Route.isFree : Route → Bool
  | .chart _ | .highlighted .. | .plain => true
  | .mermaid | .plantUml | .svg | .music => false

section
variable {services : Services} {p : Preferences} {b : Block} {s : Session}

theorem Draws.not_isFree {t : DiagramType} (h : Draws p b t) :
    (routeOf p b.language).isFree = false := by
  cases h with
  | mermaid route | plantUml route | music route => rw [route]; rfl

theorem Fails.not_isFree {e : BlockError} (h : Fails services p b e) :
    (routeOf p b.language).isFree = false := by
  cases h with
  | blankSvg route | noPlantUmlStart route | noPlantUmlEnd route | noAbcHeader route =>
    rw [route]; rfl

theorem Draws.unique {t t' : DiagramType} (h : Draws p b t) (h' : Draws p b t') : t = t' := by
  cases h with
  | mermaid route | plantUml route | music route => cases h' <;> simp_all

theorem Fails.unique {e e' : BlockError} (h : Fails services p b e)
    (h' : Fails services p b e') : e = e' := by
  cases h with
  | blankSvg route | noPlantUmlStart route | noPlantUmlEnd route | noAbcHeader route =>
    cases h' <;> simp_all

/-- A block that fails a check is not drawn. -/
theorem Draws.not_fails {t : DiagramType} {e : BlockError} (h : Draws p b t) :
    ¬ Fails services p b e := by
  intro hfails
  cases h with
  | mermaid route | plantUml route | music route => cases hfails <;> simp_all

theorem Draws.route_eq_mermaid {t : DiagramType} (h : Draws p b t) :
    routeOf p b.language = .mermaid ↔ t = .mermaid := by
  cases h with
  | mermaid route | plantUml route | music route => simp [route]

/-- A block that is not drawn, and makes no calls. -/
theorem Accounted.of_quiet {r : Rendered} (hdraws : ∀ t, ¬ Draws p b t) (hcalls : r.calls = [])
    (hstarted : r.session.started = s.started)
    (hfails : ∀ e, Fails services p b e → r.output = .error e ∧ r.session = s)
    (herror : ∀ e, r.output = .error e → Fails services p b e)
    (hwatcher : r.session.watcher ≠ s.watcher → ∃ tag, routeOf p b.language = .chart tag) :
    Accounted services p b s r := by
  have hroute : routeOf p b.language ≠ .mermaid := fun h => hdraws _ (.mermaid h)
  exact
    { draws := fun d => by simp [hcalls, hdraws]
      one_draw := by simp [hcalls]
      starts := fun θ hθ => by simp [hcalls] at hθ
      first := fun h => absurd h hroute
      started := by simp [hstarted, hroute]
      fails := fun e he => ⟨(hfails e he).1, hcalls, (hfails e he).2⟩
      error := fun e he => .inl (herror e he)
      watcher := hwatcher }

/-- A block on a route where nothing is checked. -/
theorem Accounted.of_isFree {r : Rendered} {o : Output}
    (hfree : (routeOf p b.language).isFree = true) (houtput : r.output = .ok o)
    (hcalls : r.calls = []) (hstarted : r.session.started = s.started)
    (hwatcher : r.session.watcher ≠ s.watcher → ∃ tag, routeOf p b.language = .chart tag) :
    Accounted services p b s r := by
  refine .of_quiet (fun _ hd => ?_) hcalls hstarted (fun _ he => ?_) (fun _ he => ?_) hwatcher
  · exact absurd hfree (by simp [hd.not_isFree])
  · exact absurd hfree (by simp [he.not_isFree])
  · rw [houtput] at he
    cases he

/-- A block that fails its check. -/
theorem accounted_refuse {e : BlockError} (h : Fails services p b e) :
    Accounted services p b s (refuse e s) := by
  refine .of_quiet (fun _ hd => hd.not_fails h) rfl rfl (fun e' he' => ?_) ?_ (absurd rfl)
  · exact ⟨congrArg Except.error (h.unique he'), rfl⟩
  · rintro _ ⟨⟩
    exact h

@[simp] theorem calls_drawDiagram (session : Session) (calls : List Call) (d : Diagram) :
    (drawDiagram services session calls d).calls = calls ++ [.draw d] := rfl

@[simp] theorem session_drawDiagram (session : Session) (calls : List Call) (d : Diagram) :
    (drawDiagram services session calls d).session = session := rfl

/-- A block that is drawn, after the calls `calls`. -/
theorem accounted_drawDiagram {t : DiagramType} {session : Session} {calls : List Call}
    (h : Draws p b t) (hcalls : calls =
      if t = .mermaid ∧ s.started = false then [.start p.theme] else [])
    (hsession : session = { s with started := s.started || t = .mermaid }) :
    Accounted services p b s (drawDiagram services session calls (b.diagram p t)) where
  draws d := by
    have hmem : .draw d ∈ calls ++ [Call.draw (b.diagram p t)] ↔ d = b.diagram p t := by
      rw [hcalls]
      split <;> simp
    rw [calls_drawDiagram, hmem]
    constructor
    · rintro rfl
      exact ⟨h, rfl⟩
    · rintro ⟨hd, heq⟩
      rw [heq, hd.unique h]
  one_draw := by
    rw [calls_drawDiagram, hcalls]
    split <;> simp [Call.isStart]
  starts θ hθ := by
    rw [calls_drawDiagram, hcalls] at hθ
    rw [h.route_eq_mermaid, ← and_assoc]
    split at hθ <;> simp_all
  first hroute hstarted := by
    obtain rfl := h.route_eq_mermaid.1 hroute
    rw [calls_drawDiagram, hcalls, if_pos ⟨rfl, hstarted⟩]
    rfl
  started := by
    rw [session_drawDiagram, hsession, h.route_eq_mermaid]
    simp
  fails e he := absurd he h.not_fails
  error e he := by
    refine .inr ⟨b.diagram p t, ?_⟩
    rw [drawDiagram] at he
    cases hdraw : services.draw (b.diagram p t) with
    | ok image => simp [hdraw] at he
    | error reason =>
      simp only [hdraw] at he
      cases he
      exact ⟨reason, by simp, rfl, rfl⟩
  watcher hne := by
    rw [session_drawDiagram, hsession] at hne
    exact absurd rfl hne

/-- **Every block is accounted for.** -/
theorem renderBlock_accounted (now : Nat) :
    Accounted services p b s (renderBlock services p s now b) := by
  have hblock : renderBlock services p s now b =
      renderRoute services p s now b.source (routeOf p b.language) := rfl
  rw [hblock]
  cases hroute : routeOf p b.language with
  | chart tag => exact .of_isFree (by rw [hroute]; rfl) rfl rfl rfl fun _ => ⟨tag, hroute⟩
  | highlighted language theme => exact .of_isFree (by rw [hroute]; rfl) rfl rfl rfl (absurd rfl)
  | plain => exact .of_isFree (by rw [hroute]; rfl) rfl rfl rfl (absurd rfl)
  | mermaid =>
    rw [renderRoute]
    refine accounted_drawDiagram (.mermaid hroute) ?_ (by simp)
    cases s.started <;> rfl
  | plantUml =>
    rw [renderRoute]
    split
    · next hfirst => exact accounted_refuse (.noPlantUmlStart hroute (by simpa using hfirst))
    split
    · next hfirst hlast =>
      exact accounted_refuse
        (.noPlantUmlEnd hroute (by simpa using hfirst) (by simpa using hlast))
    · next hfirst hlast =>
      exact accounted_drawDiagram
        (.plantUml hroute (by simpa using hfirst) (by simpa using hlast)) rfl (by simp)
  | svg =>
    rw [renderRoute]
    split
    · next hblank => exact accounted_refuse (.blankSvg hroute (by simpa using hblank))
    · next hblank =>
      refine .of_quiet ?_ rfl rfl ?_ nofun (absurd rfl)
      · rintro _ ⟨⟩ <;> simp_all
      · rintro _ ⟨⟩ <;> simp_all
  | music =>
    rw [renderRoute]
    split
    · next hheader => exact accounted_refuse (.noAbcHeader hroute (by simpa using hheader))
    · next hheader =>
      exact accounted_drawDiagram (.music hroute (by simpa using hheader)) rfl (by simp)

end

/-! ## A row of blocks -/

@[simp] theorem Job.started_entering (job : Job) (s : Session) :
    (job.entering s).started = s.started := by
  rw [Job.entering]
  split <;> rfl

theorem run_renderAll (services : Services) (s : Session) (jobs : List Job) :
    Run services s jobs (renderAll services s jobs) := by
  induction jobs generalizing s with
  | nil => exact .nil s
  | cons job jobs ih => exact .cons (renderBlock_accounted job.now) (ih _)

/-- Calls that start nothing and, unless the renderer was started, draw no Mermaid diagram. -/
theorem StartedOnce.append {started : Bool} {calls rest : List Call}
    (hstarts : ∀ c ∈ calls, c.isStart = false)
    (hdraws : started = false → ∀ c ∈ calls, c.isDraw .mermaid = false)
    (h : StartedOnce started rest) : StartedOnce started (calls ++ rest) := by
  cases h with
  | never starts draws =>
    refine .never (List.forall_mem_append.2 ⟨hstarts, starts⟩) fun hs => ?_
    exact List.forall_mem_append.2 ⟨hdraws hs, draws hs⟩
  | once type starts draws =>
    rw [← List.append_assoc]
    refine .once type ?_ (List.forall_mem_append.2 ⟨hdraws rfl, draws⟩)
    rw [List.append_assoc]
    exact List.forall_mem_append.2 ⟨hstarts, starts⟩

/-- The calls of a block before which the renderer was started, or that is no Mermaid diagram. -/
theorem Accounted.startedOnce_append {services : Services} {p : Preferences} {b : Block}
    {s : Session} {r : Rendered} {rest : List Call} (h : Accounted services p b s r)
    (hnot : s.started = true ∨ routeOf p b.language ≠ .mermaid)
    (hrest : StartedOnce s.started rest) : StartedOnce s.started (r.calls ++ rest) := by
  refine hrest.append ?_ ?_
  · rintro (θ | d) hc
    · obtain ⟨hroute, hstarted, -⟩ := h.starts θ hc
      rcases hnot with hs | hne
      · rw [hs] at hstarted
        cases hstarted
      · exact absurd hroute hne
    · rfl
  · rintro hstarted (θ | d) hc
    · rfl
    · rw [Call.isDraw, decide_eq_false_iff_not]
      intro htype
      have hroute := (((h.draws d).1 hc).1.route_eq_mermaid).2 htype
      rcases hnot with hs | hne
      · rw [hs] at hstarted
        cases hstarted
      · exact hne hroute

/-- **The renderer is started once** in a run. -/
theorem Run.startedOnce {services : Services} {s : Session} {jobs : List Job}
    {rs : List Rendered} (h : Run services s jobs rs) :
    StartedOnce s.started (rs.flatMap (·.calls)) := by
  induction h with
  | nil s => exact .never nofun nofun
  | @cons s job jobs r rs first rest ih =>
    rw [List.flatMap_cons]
    have hstarted := first.started
    rw [Job.started_entering] at hstarted
    by_cases hnot : s.started = true ∨ routeOf job.preferences job.block.language ≠ .mermaid
    · have hsame : r.session.started = s.started := by
        rw [Bool.eq_iff_iff, hstarted]
        exact or_iff_left_of_imp fun hroute => hnot.resolve_right (not_not_intro hroute)
      rw [hsame] at ih
      have happend := @Accounted.startedOnce_append _ _ _ _ _ (rs.flatMap (·.calls)) first
      rw [Job.started_entering] at happend
      exact happend hnot ih
    · -- the first Mermaid diagram of the run
      simp only [not_or, Bool.not_eq_true, Decidable.not_not] at hnot
      obtain ⟨hs, hroute⟩ := hnot
      rw [hstarted.2 (.inr hroute)] at ih
      rw [first.first hroute (by rw [Job.started_entering, hs]), hs]
      cases ih with
      | never starts draws =>
        exact @StartedOnce.once [] _ (job.block.diagram job.preferences .mermaid) rfl starts nofun

/-- **The calls of a run.** Every block of a run makes the calls that it is accounted for and changes
of its session only what it must, and over the run the renderer is started once at most, right before
the first Mermaid diagram and with its theme. -/
theorem renderAll_accounted (services : Services) (s : Session) (jobs : List Job) :
    Run services s jobs (renderAll services s jobs) ∧
      StartedOnce s.started ((renderAll services s jobs).flatMap (·.calls)) :=
  ⟨run_renderAll services s jobs, (run_renderAll services s jobs).startedOnce⟩

end MarkdownPrep.Render

import CognitiveTree.Search.Outcome

/-!
# Reading a run's log

The log grows by what the current step does, and an entry that shows the tree shows
the tree of the state it was written in. So a statement about every entry of a log
follows from one about every reachable state, and the states behind two entries are
connected by steps.
-/

namespace CognitiveTree.Search

variable {K W : Type} [PyFloat K] {ctl : TreeSearchController K W} {rt : Runtime K W}

/-- The evaluator's answers in a log, newest first. -/
def evaluationsIn (log : List (Obs K)) : List (Nat × Except Exc (Evaluation K)) :=
  log.filterMap fun
    | .evaluate c answer => some (c, answer)
    | _ => none

/-- The reward model's answers in a log: node, score, critique and answer. -/
def shapesIn (log : List (Obs K)) : List (Nat × K × Option (Critique K) × Except Exc K) :=
  log.filterMap fun
    | .shape c base critique answer => some (c, base, critique, answer)
    | _ => none

/-- The values backpropagated according to a log, the newest batch first. -/
def creditsIn (log : List (Obs K)) : List (Nat × K) :=
  log.flatMap fun
    | .backpropagated valued => valued
    | _ => []

/-- What an entry of the log says about the state in which it was written. -/
def Obs.shows (o : Obs K) (c : Stage K × RunState K W) : Prop :=
  match o with
  | .boundary iteration arena history => c.1 = .boundary ∧ iteration = c.2.iteration ∧
    arena = c.2.tree.arena ∧ history = c.2.machine.history
  | .transition record iteration _ tree => iteration = c.2.iteration ∧ tree = c.2.tree ∧
    record.source = c.2.machine.phase
  | .selection arena => c.1 = .boundary ∧ arena = c.2.tree.arena
  | .refused _ _ => ∃ e, .sinkRaised e ∈ c.2.log
  | .pruned node count => count = (c.2.tree.arena.pruneSubtree node).2 ∧
    Arena.Frontier c.2.tree.arena node
  | _ => True

/-- Each step writes at most one entry, apart from the exception of the event sink. -/
theorem Step.logged {c c' : Stage K × RunState K W} (hs : Step ctl rt c c')
    (hi : Inv ctl rt c) : c'.2.log = c.2.log ∨
      (∃ o, c'.2.log = o :: c.2.log ∧ o.shows c ∧ ∀ e, o ≠ .sinkRaised e) ∨
      ∃ e o, c'.2.log = .sinkRaised e :: o :: c.2.log ∧ o.shows c ∧ (∀ e, o ≠ .sinkRaised e) ∧
        ∃ sink event tree world, ctl.onEvent = some sink ∧
          (sink event tree world).1 = .error e := by
  cases hs with
  | @advance s st st' target node detail edge h quiet =>
    have hlog := RunState.mirrored_log ctl rt (s.transitioned rt target node detail h)
      target node detail
    rw [quiet] at hlog
    exact Or.inr (Or.inl ⟨_, hlog, ⟨rfl, rfl, rfl⟩, by simp⟩)
  | @advanceRaised s st st' target node detail e edge h raised =>
    have hlog := RunState.mirrored_log ctl rt (s.transitioned rt target node detail h)
      target node detail
    rw [raised] at hlog
    obtain ⟨sink, event, tree, world, hsink, hx, -⟩ := RunState.mirrored_raised ctl rt _ _ _ _ raised
    exact Or.inr (Or.inr ⟨e, _, hlog, ⟨rfl, rfl, rfl⟩, by simp, sink, event, tree, world, hsink, hx⟩)
  | mark => exact Or.inr (Or.inl ⟨_, rfl, ⟨rfl, rfl, rfl, rfl⟩, by simp⟩)
  | begin => exact Or.inr (Or.inl ⟨_, rfl, ⟨rfl, rfl⟩, by simp⟩)
  | refuse _ _ sink =>
    exact Or.inr (Or.inl ⟨_, rfl, ⟨_, List.mem_of_head? sink⟩, by simp⟩)
  | cap alloc live leaf _ =>
    exact Or.inr (Or.inl ⟨_, rfl, ⟨rfl, Inv.frontier_of_leaf alloc live leaf⟩, by simp⟩)
  | collapse => exact Or.inr (Or.inl ⟨_, rfl, ⟨rfl, (hi.working _ rfl).frontier⟩, by simp⟩)
  | retreat => exact Or.inr (Or.inl ⟨_, rfl, ⟨rfl, (hi.working _ rfl).frontier⟩, by simp⟩)
  | pollCancel | pollDeadline | found | unrevised | skip | attach | collected | collectRaised
  | judge | unexamined | unshaped => exact Or.inl rfl
  | stop | «continue» | stopRaised | pick | revise | reviseRaised | generate
  | generateRaised | evaluate | uncritiqued | critiqued | critiqueRaised | shape | shapeRaised
  | credit => exact Or.inr (Or.inl ⟨_, rfl, trivial, by simp⟩)

/-- Each step only prepends to the log. -/
theorem Step.log_extends {c c' : Stage K × RunState K W} (hs : Step ctl rt c c')
    (hi : Inv ctl rt c) : ∃ newer, c'.2.log = newer ++ c.2.log := by
  rcases hs.logged hi with he | ⟨o, he, -⟩ | ⟨e, o, he, -⟩
  · exact ⟨[], he⟩
  · exact ⟨[o], he⟩
  · exact ⟨[.sinkRaised e, o], he⟩

/-- Any number of steps only prepends to the log. -/
theorem Reach.log_extends {task : Str} {draws : Nat} {c c' : Stage K × RunState K W}
    (h : Reach ctl rt task draws c) (hs : Steps ctl rt c c') :
    ∃ newer, c'.2.log = newer ++ c.2.log := by
  induction hs with
  | refl => exact ⟨[], rfl⟩
  | @tail b c' hb hbc ih =>
    obtain ⟨newer, hnewer⟩ := ih
    have hreach : Reach ctl rt task draws b := by
      obtain ⟨world, hr⟩ := h
      exact ⟨world, hr.trans hb⟩
    obtain ⟨newest, hnewest⟩ := hbc.log_extends hreach.inv
    exact ⟨newest ++ newer, by rw [hnewest, hnewer, List.append_assoc]⟩

/-- An entry of the log was written by one of the steps behind it. -/
theorem Reach.trace_step {task : Str} {draws : Nat} {c : Stage K × RunState K W}
    (h : Reach ctl rt task draws c) {newer older : List (Obs K)} {o : Obs K}
    (hlog : c.2.log = newer ++ o :: older) (ho : ∀ e, o ≠ .sinkRaised e) :
    ∃ c₀ c₁ newest, Reach ctl rt task draws c₀ ∧ c₀.2.log = older ∧
      c₁.2.log = newest ++ o :: older ∧ o.shows c₀ ∧ Step ctl rt c₀ c₁ ∧ Steps ctl rt c₁ c := by
  obtain ⟨world, hr⟩ := h
  induction hr generalizing newer with
  | refl =>
    change [] = _ at hlog
    exact absurd hlog (by simp)
  | @tail b c hb hbc ih =>
    -- an entry already present was written earlier
    have hold : ∀ {newer'}, b.2.log = newer' ++ o :: older →
        ∃ c₀ c₁ newest, Reach ctl rt task draws c₀ ∧ c₀.2.log = older ∧
          c₁.2.log = newest ++ o :: older ∧ o.shows c₀ ∧ Step ctl rt c₀ c₁ ∧ Steps ctl rt c₁ c := by
      intro newer' hb'
      obtain ⟨c₀, c₁, newest, h₀, hlog₀, hlog₁, hshow, h₀₁, h₁⟩ := ih hb'
      exact ⟨c₀, c₁, newest, h₀, hlog₀, hlog₁, hshow, h₀₁, h₁.tail hbc⟩
    have hreach : Reach ctl rt task draws b := ⟨world, hb⟩
    rcases hbc.logged hreach.inv with he | ⟨x, he, hx, -⟩ | ⟨e, x, he, hx, -⟩
    · exact hold (he ▸ hlog)
    · have hfull := hlog
      rw [he] at hlog
      rcases newer with _ | ⟨y, newer⟩
      · cases hlog
        exact ⟨b, c, [], hreach, rfl, hfull, hx, hbc, .refl⟩
      · rw [List.cons_append, List.cons.injEq] at hlog
        exact hold hlog.2
    · have hfull := hlog
      rw [he] at hlog
      rcases newer with _ | ⟨y, _ | ⟨z, newer⟩⟩
      · cases hlog
        exact absurd rfl (ho e)
      · cases hlog
        exact ⟨b, c, _, hreach, rfl, hfull, hx, hbc, .refl⟩
      · rw [List.cons_append, List.cons_append, List.cons.injEq, List.cons.injEq] at hlog
        exact hold hlog.2.2

/-- Behind an entry of the log there is the state in which it was written. -/
theorem Reach.trace {task : Str} {draws : Nat} {c : Stage K × RunState K W}
    (h : Reach ctl rt task draws c) {newer older : List (Obs K)} {o : Obs K}
    (hlog : c.2.log = newer ++ o :: older) (ho : ∀ e, o ≠ .sinkRaised e) :
    ∃ c₀ c₁, Reach ctl rt task draws c₀ ∧ c₀.2.log = older ∧ o.shows c₀ ∧
      Step ctl rt c₀ c₁ ∧ Steps ctl rt c₁ c := by
  obtain ⟨c₀, c₁, newest, h₀, hlog₀, -, hshow, h₀₁, h₁⟩ := h.trace_step hlog ho
  exact ⟨c₀, c₁, h₀, hlog₀, hshow, h₀₁, h₁⟩

/-- The event sink never raises. -/
def TreeSearchController.QuietSink (ctl : TreeSearchController K W) : Prop :=
  ∀ sink, ctl.onEvent = some sink → ∀ event tree world e, (sink event tree world).1 ≠ .error e

/-- With a quiet sink a legal transition succeeds. -/
theorem TreeSearchController.QuietSink.advance (h : ctl.QuietSink) (rt : Runtime K W)
    {s : RunState K W} {target : SearchPhase} (node : Option Nat) (detail : Str)
    (hcan : s.machine.canTransition target = true) : ∃ w, advance ctl rt target node detail s =
      .ok ⟨⟩ ((s.transitioned rt target node detail hcan).inWorld w) := by
  rw [advance_run ctl rt node detail hcan]
  unfold RunState.mirrored
  cases hsink : ctl.onEvent with
  | none => exact ⟨_, rfl⟩
  | some sink =>
    have hquiet := h sink hsink
    dsimp only
    split
    · rename_i heq
      split at heq
      · exact ⟨_, rfl⟩
      · cases heq
    · rename_i heq
      split at heq
      · cases heq
      · rename_i hraised
        exact absurd (congrArg Prod.fst hraised) (hquiet _ _ _ _)

namespace Reach

variable {task : Str} {draws : Nat} {c : Stage K × RunState K W}

theorem no_sinkRaised (quiet : ctl.QuietSink) (h : Reach ctl rt task draws c) (e : Exc) :
    Obs.sinkRaised e ∉ c.2.log := by
  refine h.strengthen (P := fun c => Obs.sinkRaised e ∉ c.2.log) (fun world => by simp [startState])
    fun c c' hr hc hs => ?_
  have hi := hr.inv
  rcases hs.logged hi with he | ⟨o, he, -, ho⟩ | ⟨x, o, -, -, -, sink, event, tree, world, hsink, hx⟩
  · rwa [he]
  · rw [he, List.mem_cons, not_or]
    exact ⟨fun heq => ho e heq.symm, hc⟩
  · exact absurd hx (quiet sink hsink event tree world x)

/-- With a quiet sink the machine never refuses a transition. -/
theorem no_refused (quiet : ctl.QuietSink) (h : Reach ctl rt task draws c)
    (source target : SearchPhase) : Obs.refused source target ∉ c.2.log := by
  intro hmem
  obtain ⟨newer, older, hlog⟩ := List.append_of_mem hmem
  obtain ⟨c₀, _, h₀, -, ⟨e, he⟩, -⟩ := h.trace hlog (by simp)
  exact h₀.no_sinkRaised quiet e he

end Reach

end CognitiveTree.Search

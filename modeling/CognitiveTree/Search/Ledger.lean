import CognitiveTree.Search.Lifecycle

/-!
# What the log knows about verdicts and values

Every node is evaluated, and its value shaped, at most once; a stored verdict and a
backpropagated value are the ones the log attributes to the node.
-/

namespace CognitiveTree.Search

open Arena

variable {K W : Type} [PyFloat K]

namespace Stage

/-- The evaluator's answers the stage still works with. -/
def verdicts : Stage K → List (Nat × Except Exc (Evaluation K))
  | .collecting _ _ results => results
  | .judging _ todo _ _ => todo.map fun cv => (cv.1, .ok cv.2)
  | .diagnosing _ c v todo _ _ | .shaping _ c v _ todo _ _ =>
    (c, .ok v) :: todo.map fun cv => (cv.1, .ok cv.2)
  | _ => []

/-- The children of the batch the evaluator has not been asked about. -/
def unevaluated : Stage K → List Nat
  | .attaching _ _ _ batch => batch
  | .collecting _ batch results => batch.filter fun c => c ∉ results.map Prod.fst
  | _ => []

/-- The values waiting to be backpropagated. -/
def valued : Stage K → List (Nat × K)
  | .judging _ _ _ valued | .diagnosing _ _ _ _ _ valued | .shaping _ _ _ _ _ _ valued
  | .propagating _ _ valued => valued
  | _ => []

/-- The children of the batch without a value. -/
def unvalued : Stage K → List Nat
  | .attaching _ _ _ batch => batch
  | .collecting _ batch _ => batch
  | .judging _ todo _ _ => todo.map Prod.fst
  | .diagnosing _ c _ todo _ _ | .shaping _ c _ _ todo _ _ => c :: todo.map Prod.fst
  | _ => []

end Stage

variable {ctl : TreeSearchController K W} {rt : Runtime K W}

section Projections

variable {s : RunState K W} {target : SearchPhase} {node : Option Nat} {detail : Str}

theorem evaluationsIn_mirrored : evaluationsIn (s.mirrored ctl rt target node detail).1.log =
    evaluationsIn s.log := by
  rw [RunState.mirrored_log]
  cases (s.mirrored ctl rt target node detail).2 <;> rfl

theorem shapesIn_mirrored : shapesIn (s.mirrored ctl rt target node detail).1.log =
    shapesIn s.log := by
  rw [RunState.mirrored_log]
  cases (s.mirrored ctl rt target node detail).2 <;> rfl

end Projections

/-- A call of the evaluator answers for one waiting child; every other step only drops
answers and waiting children, or adds a new child to those waiting. -/
theorem Step.evaluation_cases {c c' : Stage K × RunState K W} (hs : Step ctl rt c c')
    (hi : Inv ctl rt c) :
    (evaluationsIn c'.2.log = evaluationsIn c.2.log ∧
      (∀ p ∈ c'.1.verdicts, p ∈ c.1.verdicts) ∧
      ∀ d ∈ c'.1.unevaluated, d ∈ c.1.unevaluated ∨ d = c.2.tree.arena.size) ∨
    ∃ n batch results d answer, c.1 = .collecting n batch results ∧
      c'.1 = .collecting n batch (results ++ [(d, answer)]) ∧ d ∈ batch ∧
      d ∉ results.map Prod.fst ∧ c'.2.tree = c.2.tree ∧
      answer = (ctl.evaluator d c.2.tree.arena c.2.metadata c.2.world).answer ∧
      evaluationsIn c'.2.log = (d, answer) :: evaluationsIn c.2.log := by
  -- a stage that works with no answers and has no child waiting
  have hidle : ∀ {st : Stage K} {L : List (Obs K)}, st.verdicts = [] → st.unevaluated = [] →
      evaluationsIn L = evaluationsIn c.2.log →
      evaluationsIn L = evaluationsIn c.2.log ∧ (∀ p ∈ st.verdicts, p ∈ c.1.verdicts) ∧
        ∀ d ∈ st.unevaluated, d ∈ c.1.unevaluated ∨ d = c.2.tree.arena.size := by
    intro st L hv hu hL
    rw [hv, hu]
    exact ⟨hL, fun p hp => absurd hp List.not_mem_nil, fun d hd => absurd hd List.not_mem_nil⟩
  cases hs with
  | @advance s st st' target node detail edge h quiet =>
    refine Or.inl ?_
    cases edge
    case candidates n seen batch hne =>
      refine ⟨evaluationsIn_mirrored, fun p hp => absurd hp List.not_mem_nil, fun d hd => ?_⟩
      exact Or.inl (List.mem_filter.mp hd).1
    all_goals exact hidle rfl rfl evaluationsIn_mirrored
  | @advanceRaised s st st' target node detail e edge h raised =>
    cases st' <;> exact Or.inl (hidle rfl rfl evaluationsIn_mirrored)
  | pollCancel | pollDeadline | revise => split <;> exact Or.inl (hidle rfl rfl rfl)
  | @attach s n content rest seen batch c tree _ _ added =>
    rw [ThoughtTree.addChild, if_pos (hi.indexed n (hi.working n rfl).alloc)] at added
    cases added
    refine Or.inl ⟨rfl, fun p hp => absurd hp List.not_mem_nil, fun d hd => ?_⟩
    exact (List.mem_append.mp hd).imp_right List.mem_singleton.mp
  | skip => exact Or.inl ⟨rfl, fun p hp => hp, fun d hd => Or.inl hd⟩
  | @evaluate s n c batch results reply pending fresh hreply =>
    exact Or.inr ⟨n, batch, results, c, reply.answer, rfl, rfl, pending, fresh, rfl,
      by rw [hreply], rfl⟩
  | @collected s n batch results verdicts order answers =>
    refine Or.inl ⟨rfl, fun p hp => ?_, fun d hd => absurd hd List.not_mem_nil⟩
    obtain ⟨cv, hcv, rfl⟩ := List.mem_map.mp hp
    exact answers cv hcv
  | judge | unexamined | uncritiqued | critiqued =>
    exact Or.inl ⟨rfl, fun p hp => hp, fun d hd => absurd hd List.not_mem_nil⟩
  | unshaped | shape =>
    exact Or.inl ⟨rfl, fun p hp => List.mem_cons_of_mem _ hp, fun d hd => absurd hd List.not_mem_nil⟩
  | _ => exact Or.inl (hidle rfl rfl rfl)

/-- The log and the stage agree on the verdicts. -/
structure VerdictLedger (c : Stage K × RunState K W) : Prop where
  known : ∀ p ∈ c.1.verdicts, p ∈ evaluationsIn c.2.log
  alloc : ∀ p ∈ evaluationsIn c.2.log, 0 < p.1 ∧ p.1 < c.2.tree.arena.size
  waiting : ∀ d ∈ c.1.unevaluated, d ∉ (evaluationsIn c.2.log).map Prod.fst
  once : ((evaluationsIn c.2.log).map Prod.fst).Nodup

namespace Reach

variable {task : Str} {draws : Nat} {c : Stage K × RunState K W}

theorem verdictLedger (h : Reach ctl rt task draws c) : VerdictLedger c := by
  refine h.strengthen (P := VerdictLedger) (fun world => ⟨by simp [Stage.verdicts],
    by simp [startState, evaluationsIn], by simp [Stage.unevaluated],
    by simp [startState, evaluationsIn]⟩) fun c c' hr hc hs => ?_
  have hi := hr.inv
  have hsize : c.2.tree.arena.size ≤ c'.2.tree.arena.size := (hs.frozen hi).size_le
  rcases hs.evaluation_cases hi with ⟨hlog, hverdicts, hwaiting⟩ |
    ⟨n, batch, results, d, answer, hst, hst', hd, hfresh, htree, -, hlog⟩
  · refine ⟨?_, ?_, ?_, ?_⟩ <;> rw [hlog]
    · exact fun p hp => hc.known p (hverdicts p hp)
    · exact fun p hp => ⟨(hc.alloc p hp).1, (hc.alloc p hp).2.trans_le hsize⟩
    · intro d hd
      rcases hwaiting d hd with hd | rfl
      · exact hc.waiting d hd
      · intro hm
        obtain ⟨p, hp, he⟩ := List.mem_map.mp hm
        have := (hc.alloc p hp).2
        omega
    · exact hc.once
  · have hw := hi.working n (by rw [hst]; rfl)
    have hdn : d ∈ (c.2.tree.arena.node n).children := hw.attached d (by rw [hst]; exact hd)
    have hnew : d ∉ (evaluationsIn c.2.log).map Prod.fst :=
      hc.waiting d (by rw [hst]; exact List.mem_filter.mpr ⟨hd, by simpa using hfresh⟩)
    refine ⟨?_, ?_, ?_, ?_⟩ <;> rw [hlog]
    · intro p hp
      rw [hst'] at hp
      rcases List.mem_append.mp hp with hp | hp
      · exact List.mem_cons_of_mem _ (hc.known p (by rw [hst]; exact hp))
      · rw [List.mem_singleton.mp hp]
        exact List.mem_cons_self ..
    · intro p hp
      rcases List.mem_cons.mp hp with rfl | hp
      · rw [htree]
        exact ⟨Nat.zero_lt_of_lt (lt_of_mem_children hdn), (mem_children.mp hdn).1⟩
      · rw [htree]
        exact hc.alloc p hp
    · intro x hx
      rw [hst'] at hx
      obtain ⟨hxb, hxr⟩ := List.mem_filter.mp hx
      simp only [List.map_append, List.map_cons, List.map_nil, List.mem_append, List.mem_singleton,
        not_or, decide_eq_true_eq] at hxr
      rw [List.map_cons, List.mem_cons, not_or]
      refine ⟨hxr.2, hc.waiting x ?_⟩
      rw [hst]
      exact List.mem_filter.mpr ⟨hxb, by simpa using hxr.1⟩
    · rw [List.map_cons]
      exact List.nodup_cons.mpr ⟨hnew, hc.once⟩

end Reach

/-- The verdict of one child becomes its value, shaped or not; every other step only
drops values and children without one, or adds a new child to the latter. -/
theorem Step.value_cases {c c' : Stage K × RunState K W} (hs : Step ctl rt c c')
    (hi : Inv ctl rt c) :
    (shapesIn c'.2.log = shapesIn c.2.log ∧ (∀ p ∈ c'.1.valued, p ∈ c.1.valued) ∧
      ∀ d ∈ c'.1.unvalued, d ∈ c.1.unvalued ∨ d = c.2.tree.arena.size) ∨
    ∃ n d v critique todo solution valued,
      c.1 = .shaping n d v critique todo solution valued ∧ c'.2.tree = c.2.tree ∧
      ((ctl.rewardModel = none ∧ shapesIn c'.2.log = shapesIn c.2.log ∧
        c'.1 = .judging n todo (nextSolution (verdictStatus ctl.config v) d solution)
          (valued ++ [(d, v.score)])) ∨
      (∃ model value, ctl.rewardModel = some model ∧
        shapesIn c'.2.log = (d, v.score, critique, .ok value) :: shapesIn c.2.log ∧
        c'.1 = .judging n todo (nextSolution (verdictStatus ctl.config v) d solution)
          (valued ++ [(d, value)])) ∨
      ∃ e, shapesIn c'.2.log = (d, v.score, critique, .error e) :: shapesIn c.2.log ∧
        c'.1 = .faulted e) := by
  have hidle : ∀ {st : Stage K} {L : List (Obs K)}, st.valued = [] → st.unvalued = [] →
      shapesIn L = shapesIn c.2.log →
      shapesIn L = shapesIn c.2.log ∧ (∀ p ∈ st.valued, p ∈ c.1.valued) ∧
        ∀ d ∈ st.unvalued, d ∈ c.1.unvalued ∨ d = c.2.tree.arena.size := by
    intro st L hv hu hL
    rw [hv, hu]
    exact ⟨hL, fun p hp => absurd hp List.not_mem_nil, fun d hd => absurd hd List.not_mem_nil⟩
  cases hs with
  | @advance s st st' target node detail edge h quiet =>
    refine Or.inl ?_
    cases edge
    case candidates n seen batch hne =>
      exact ⟨shapesIn_mirrored, fun p hp => hp, fun d hd => Or.inl hd⟩
    case valued n solution values =>
      exact ⟨shapesIn_mirrored, fun p hp => hp, fun d hd => absurd hd List.not_mem_nil⟩
    all_goals exact hidle rfl rfl shapesIn_mirrored
  | @advanceRaised s st st' target node detail e edge h raised =>
    cases st' <;> exact Or.inl (hidle rfl rfl shapesIn_mirrored)
  | pollCancel | pollDeadline | revise => split <;> exact Or.inl (hidle rfl rfl rfl)
  | @attach s n content rest seen batch c tree _ _ added =>
    rw [ThoughtTree.addChild, if_pos (hi.indexed n (hi.working n rfl).alloc)] at added
    cases added
    refine Or.inl ⟨rfl, fun p hp => absurd hp List.not_mem_nil, fun d hd => ?_⟩
    exact (List.mem_append.mp hd).imp_right List.mem_singleton.mp
  | skip | evaluate | judge | unexamined | uncritiqued | critiqued =>
    exact Or.inl ⟨rfl, fun p hp => hp, fun d hd => Or.inl hd⟩
  | @collected s n batch results verdicts order answers =>
    exact Or.inl ⟨rfl, fun p hp => hp, fun d hd => Or.inl (order ▸ hd)⟩
  | @unshaped s n d v critique todo solution values hmodel =>
    exact Or.inr ⟨n, d, v, critique, todo, solution, values, rfl, rfl,
      Or.inl ⟨hmodel, rfl, rfl⟩⟩
  | @shape s n d v critique todo solution values model reply value hmodel hreply answer =>
    exact Or.inr ⟨n, d, v, critique, todo, solution, values, rfl, rfl,
      Or.inr (Or.inl ⟨model, value, hmodel, by rw [answer]; rfl, rfl⟩)⟩
  | @shapeRaised s n d v critique todo solution values model reply e hmodel hreply answer =>
    exact Or.inr ⟨n, d, v, critique, todo, solution, values, rfl, rfl,
      Or.inr (Or.inr ⟨e, by rw [answer]; rfl, rfl⟩)⟩
  | _ => exact Or.inl (hidle rfl rfl rfl)

/-- The value the log attributes to a node: shaped when there is a reward model, and the
raw score of its verdict otherwise. -/
def ValueOf (ctl : TreeSearchController K W) (log : List (Obs K)) (p : Nat × K) : Prop :=
  ∃ v : Evaluation K, (p.1, .ok v) ∈ evaluationsIn log ∧
    match ctl.rewardModel with
    | none => p.2 = v.score
    | some _ => ∃ critique, (p.1, v.score, critique, .ok p.2) ∈ shapesIn log

/-- The log and the stage agree on the values. -/
structure ValueLedger (ctl : TreeSearchController K W) (c : Stage K × RunState K W) : Prop where
  known : ∀ p ∈ c.1.valued ++ creditsIn c.2.log, ValueOf ctl c.2.log p
  alloc : ∀ p ∈ shapesIn c.2.log, p.1 < c.2.tree.arena.size
  waiting : ∀ d ∈ c.1.unvalued, d ∉ (shapesIn c.2.log).map Prod.fst
  once : ((shapesIn c.2.log).map Prod.fst).Nodup

namespace Reach

variable {task : Str} {draws : Nat} {c c' : Stage K × RunState K W}

/-- What the log attributes to a node is never taken back. -/
theorem valueOf_step (hi : Inv ctl rt c) (hs : Step ctl rt c c') {p : Nat × K}
    (h : ValueOf ctl c.2.log p) : ValueOf ctl c'.2.log p := by
  have hev : ∀ x ∈ evaluationsIn c.2.log, x ∈ evaluationsIn c'.2.log := by
    intro x hx
    rcases hs.evaluation_cases hi with ⟨hlog, -⟩ | ⟨_, _, _, _, _, -, -, -, -, -, -, hlog⟩ <;>
      rw [hlog]
    · exact hx
    · exact List.mem_cons_of_mem _ hx
  have hsh : ∀ x ∈ shapesIn c.2.log, x ∈ shapesIn c'.2.log := by
    intro x hx
    rcases hs.value_cases hi with ⟨hlog, -⟩ | ⟨_, _, _, _, _, _, _, -, -, hcases⟩
    · rwa [hlog]
    · rcases hcases with ⟨-, hlog, -⟩ | ⟨_, _, -, hlog, -⟩ | ⟨_, hlog, -⟩ <;> rw [hlog]
      · exact hx
      · exact List.mem_cons_of_mem _ hx
      · exact List.mem_cons_of_mem _ hx
  obtain ⟨v, hv, hvalue⟩ := h
  refine ⟨v, hev _ hv, ?_⟩
  cases hmodel : ctl.rewardModel with
  | none =>
    rw [hmodel] at hvalue
    exact hvalue
  | some model =>
    rw [hmodel] at hvalue
    obtain ⟨critique, hcritique⟩ := hvalue
    exact ⟨critique, hsh _ hcritique⟩

theorem valueLedger (h : Reach ctl rt task draws c) : ValueLedger ctl c := by
  refine h.strengthen (P := ValueLedger ctl) (fun world => ⟨by simp [Stage.valued, creditsIn,
    startState], by simp [startState, shapesIn], by simp [Stage.unvalued],
    by simp [startState, shapesIn]⟩) fun c c' hr hc hs => ?_
  have hi := hr.inv
  have hsize : c.2.tree.arena.size ≤ c'.2.tree.arena.size := (hs.frozen hi).size_le
  have hold : ∀ p, p ∈ c.1.valued ∨ p ∈ creditsIn c.2.log → ValueOf ctl c'.2.log p := fun p hp =>
    valueOf_step hi hs (hc.known p (List.mem_append.mpr hp))
  -- credited values were waiting before
  have hcredits : ∀ p ∈ creditsIn c'.2.log, ValueOf ctl c'.2.log p := by
    intro p hp
    rcases hs.tree_cases hi with ⟨hlog, -⟩ | ⟨n, solution, valued, hst, -, hlog, -⟩
    · rw [hlog] at hp
      exact hold p (Or.inr hp)
    · rw [hlog] at hp
      refine hold p ((List.mem_append.mp hp).imp_left fun hp => ?_)
      rw [hst]
      exact hp
  rcases hs.value_cases hi with ⟨hlog, hvalued, hwaiting⟩ |
    ⟨n, d, v, critique, todo, solution, valued, hst, htree, hcases⟩
  · refine ⟨?_, ?_, ?_, ?_⟩
    · intro p hp
      exact (List.mem_append.mp hp).elim (fun hp => hold p (Or.inl (hvalued p hp))) (hcredits p)
    · rw [hlog]
      exact fun p hp => (hc.alloc p hp).trans_le hsize
    · rw [hlog]
      intro d hd
      rcases hwaiting d hd with hd | rfl
      · exact hc.waiting d hd
      · intro hm
        obtain ⟨p, hp, he⟩ := List.mem_map.mp hm
        have := hc.alloc p hp
        omega
    · rw [hlog]
      exact hc.once
  · have hw := hi.working n (by rw [hst]; rfl)
    have hbatch : c.1.batch = valued.map Prod.fst ++ d :: todo.map Prod.fst := by rw [hst]; rfl
    have hdtodo : d ∉ todo.map Prod.fst := by
      have hnodup := hw.nodup
      rw [hbatch] at hnodup
      exact (List.nodup_cons.mp (List.nodup_append.mp hnodup).2.1).1
    have hd : d < c.2.tree.arena.size := hw.mem_alloc (by rw [hbatch]; simp)
    have hunvalued : ∀ x, x = d ∨ x ∈ todo.map Prod.fst → x ∉ (shapesIn c.2.log).map Prod.fst :=
      fun x hx => hc.waiting x (by rw [hst]; exact List.mem_cons.mpr hx)
    have hverdict : (d, .ok v) ∈ evaluationsIn c'.2.log := by
      have hknown := hr.verdictLedger.known (d, .ok v) (by rw [hst]; exact List.mem_cons_self ..)
      rcases hs.evaluation_cases hi with ⟨hlog, -⟩ | ⟨_, _, _, _, _, -, -, -, -, -, -, hlog⟩ <;>
        rw [hlog]
      · exact hknown
      · exact List.mem_cons_of_mem _ hknown
    -- one new entry about `d`, whatever it says
    have hnew : ∀ {entry}, shapesIn c'.2.log = (d, entry) :: shapesIn c.2.log →
        (∀ p ∈ shapesIn c'.2.log, p.1 < c'.2.tree.arena.size) ∧
        (∀ x ∈ todo.map Prod.fst, x ∉ (shapesIn c'.2.log).map Prod.fst) ∧
        ((shapesIn c'.2.log).map Prod.fst).Nodup := by
      intro entry hlog
      rw [hlog, htree, List.map_cons]
      refine ⟨fun p hp => ?_, fun x hx => ?_, List.nodup_cons.mpr ⟨hunvalued d (Or.inl rfl), hc.once⟩⟩
      · rcases List.mem_cons.mp hp with rfl | hp
        · exact hd
        · exact hc.alloc p hp
      · rw [List.mem_cons, not_or]
        exact ⟨fun he => hdtodo ((show x = d from he) ▸ hx), hunvalued x (Or.inr hx)⟩
    rcases hcases with ⟨hmodel, hlog, hst'⟩ | ⟨model, value, hmodel, hlog, hst'⟩ | ⟨e, hlog, hst'⟩
    · refine ⟨?_, by rw [hlog, htree]; exact hc.alloc, ?_, by rw [hlog]; exact hc.once⟩
      · intro p hp
        rw [hst'] at hp
        rcases List.mem_append.mp hp with hp | hp
        · rcases List.mem_append.mp hp with hp | hp
          · exact hold p (Or.inl (by rw [hst]; exact hp))
          · rw [List.mem_singleton.mp hp]
            refine ⟨v, hverdict, ?_⟩
            rw [hmodel]
        · exact hcredits p hp
      · rw [hlog, hst']
        exact fun x hx => hunvalued x (Or.inr hx)
    · obtain ⟨halloc, hwaiting, honce⟩ := hnew hlog
      refine ⟨?_, halloc, by rw [hst']; exact hwaiting, honce⟩
      intro p hp
      rw [hst'] at hp
      rcases List.mem_append.mp hp with hp | hp
      · rcases List.mem_append.mp hp with hp | hp
        · exact hold p (Or.inl (by rw [hst]; exact hp))
        · rw [List.mem_singleton.mp hp]
          refine ⟨v, hverdict, ?_⟩
          rw [hmodel]
          refine ⟨critique, ?_⟩
          rw [hlog]
          exact List.mem_cons_self ..
      · exact hcredits p hp
    · obtain ⟨halloc, -, honce⟩ := hnew hlog
      refine ⟨?_, halloc, ?_, honce⟩ <;> rw [hst']
      · exact fun p hp => hcredits p hp
      · exact fun x hx => absurd hx List.not_mem_nil

/-- What the log calls an answer of the reward model is one. -/
theorem shapes_answered (h : Reach ctl rt task draws c) {n : Nat} {base : K}
    {critique : Option (Critique K)} {answer : Except Exc K}
    (hentry : (n, base, critique, answer) ∈ shapesIn c.2.log) :
    ∃ model arena metadata world, ctl.rewardModel = some model ∧
      answer = (model n base critique arena metadata world).answer := by
  revert n base critique answer
  refine h.strengthen (P := fun c => ∀ {n base critique answer},
    (n, base, critique, answer) ∈ shapesIn c.2.log → ∃ model arena metadata world,
      ctl.rewardModel = some model ∧ answer = (model n base critique arena metadata world).answer)
    (fun world => by simp [startState, shapesIn]) fun c c' hr hc hs => ?_
  intro n base critique answer hentry
  cases hs with
  | advance | advanceRaised =>
    rw [shapesIn_mirrored] at hentry
    exact hc hentry
  | shape hmodel hreply _ | shapeRaised hmodel hreply _ =>
    rcases List.mem_cons.mp hentry with he | hentry
    · cases he
      exact ⟨_, _, _, _, hmodel, congrArg Reply.answer hreply⟩
    · exact hc hentry
  | _ => exact hc hentry

end Reach

end CognitiveTree.Search

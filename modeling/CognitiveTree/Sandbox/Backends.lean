import CognitiveTree.Core.Interleaving
import CognitiveTree.Sandbox.DockerExecutor

/-!
# The choice of an executor

A selection asks for the daemon, then for the image, and falls back to the host process. Probe,
image and failed build are remembered in globals that all threads of a process share: each reads
and writes them at its own time.
-/

namespace CognitiveTree.Sandbox

open Search

/-- What `subprocess.run` comes to. -/
inductive Subprocess where
  | finished (returncode : Int) (stdout stderr : Str)
  /-- an `OSError` or a `TimeoutExpired` -/
  | failed (e : Exc)
  | raised (e : Exc)

/-- `DockerSandboxExecutor.is_available()`, from what became of `docker info`. -/
def isAvailable : Subprocess → Except Exc Bool
  | .finished returncode stdout _ =>
    .ok (decide (returncode = 0) && decide (Str.lower (Str.strip stdout) = lit "linux"))
  | .failed _ => .ok false
  | .raised e => .error e

/-- `DEFAULT_IMAGE`. -/
def defaultImage : Str := lit "cognitivetree-sandbox:latest"

/-- `DockerUnavailableError`. -/
def dockerUnavailable : Str := lit "DockerUnavailableError"

/-- `ensure_image(config, build_if_missing)`, from what becomes of `docker image inspect` and
`docker build`. -/
def ensureImage (buildIfMissing : Bool) (inspect build : Subprocess) : Except Exc Bool :=
  match inspect with
  | .failed e | .raised e => .error e
  | .finished returncode _ _ =>
    if returncode = 0 then .ok true
    else if !buildIfMissing then .ok false
    else match build with
      | .failed e | .raised e => .error e
      | .finished returncode _ stderr =>
        if returncode ≠ 0 then
          .error ⟨dockerUnavailable, lit "sandbox image build failed: " ++
            (Str.strip stderr).drop ((Str.strip stderr).length - 500)⟩
        else .ok true

/-- What happened outside, oldest last. -/
inductive Deed where
  | probed (available : Bool)
  /-- `ensure_image` returned -/
  | ensured
  /-- it raised a `DockerUnavailableError` -/
  | refused
  deriving DecidableEq

/-- The globals of the module, with what happened outside. -/
structure Globals (K : Type) where
  probeExpiry : K
  probeResult : Bool
  imageReady : Bool
  imageError : Option Str
  log : List Deed

/-- The globals of a new process. -/
def Globals.fresh (K : Type) [PyFloat K] : Globals K := ⟨PyFloat.zero, false, false, none, []⟩

inductive Backend where
  | docker
  | subprocess
  deriving DecidableEq

/-- The reason in the description of a fallback. -/
def imageUnavailable : Str := lit "sandbox image unavailable"

def daemonUnreachable : Str := lit "Docker daemon unreachable"

/-- `f"docker ({config.image})"`. -/
def dockerDescription : Str := lit "docker (" ++ defaultImage ++ lit ")"

/-- `f"subprocess fallback (no isolation; {reason})"`. -/
def fallbackDescription (reason : Str) : Str :=
  lit "subprocess fallback (no isolation; " ++ reason ++ lit ")"

/-- Where a thread stands in `select_executor`. -/
inductive Selection (K : Type) where
  | idle
  /-- in `docker_available`, with its clock -/
  | clocked (now : K)
  /-- in `is_available` -/
  | probing
  | probed (available : Bool)
  /-- `docker_available` has returned -/
  | available (answer : Bool)
  /-- no error was found -/
  | unfailed
  /-- in `ensure_image` -/
  | building
  /-- it returned -/
  | ensured
  /-- it raised this `DockerUnavailableError` -/
  | refused (e : Exc)
  /-- before the image flag is read again -/
  | checking
  /-- before the error is read for its reason -/
  | degrading
  | selected (backend : Backend) (description : Str)
  | raised (e : Exc)

section Steps

variable {K : Type} [PyFloat K] (ttl : K)

/-- The steps of a selection, each of which reads or writes the globals once. -/
inductive Selects : Globals K → Selection K → Globals K → Selection K → Prop
  /-- the monotonic clock is not negative -/
  | start {g : Globals K} (now : K) (h : PyFloat.lt now PyFloat.zero = false) :
      Selects g .idle g (.clocked now)
  | cached {g : Globals K} {now : K} (h : PyFloat.lt now g.probeExpiry = true) :
      Selects g (.clocked now) g (.available g.probeResult)
  | expired {g : Globals K} {now : K} (h : PyFloat.lt now g.probeExpiry = false) :
      Selects g (.clocked now) g .probing
  | probe {g : Globals K} {info : Subprocess} {answer : Bool} (h : isAvailable info = .ok answer) :
      Selects g .probing { g with log := .probed answer :: g.log } (.probed answer)
  | probeRaised {g : Globals K} {info : Subprocess} {e : Exc} (h : isAvailable info = .error e) :
      Selects g .probing g (.raised e)
  /-- the result and its expiry are stored under the lock -/
  | store {g : Globals K} {answer : Bool} (now : K) :
      Selects g (.probed answer)
        { g with probeResult := answer, probeExpiry := PyFloat.add now ttl } (.available answer)
  | unavailable {g : Globals K} : Selects g (.available false) g .degrading
  | failed {g : Globals K} (h : g.imageError ≠ none) : Selects g (.available true) g .degrading
  | unfailed {g : Globals K} (h : g.imageError = none) : Selects g (.available true) g .unfailed
  | ready {g : Globals K} (h : g.imageReady = true) : Selects g .unfailed g .checking
  | unready {g : Globals K} (h : g.imageReady = false) : Selects g .unfailed g .building
  | ensure {g : Globals K} {inspect build : Subprocess} {present : Bool}
      (h : ensureImage true inspect build = .ok present) :
      Selects g .building { g with log := .ensured :: g.log } .ensured
  | refuse {g : Globals K} {inspect build : Subprocess} {e : Exc}
      (h : ensureImage true inspect build = .error e) (caught : e.typeName = dockerUnavailable) :
      Selects g .building { g with log := .refused :: g.log } (.refused e)
  | ensureRaised {g : Globals K} {inspect build : Subprocess} {e : Exc}
      (h : ensureImage true inspect build = .error e) (escaped : e.typeName ≠ dockerUnavailable) :
      Selects g .building g (.raised e)
  | setReady {g : Globals K} : Selects g .ensured { g with imageReady := true } .checking
  | setError {g : Globals K} {e : Exc} :
      Selects g (.refused e) { g with imageError := some e.text } .checking
  | docker {g : Globals K} (h : g.imageReady = true) :
      Selects g .checking g (.selected .docker dockerDescription)
  | unbuilt {g : Globals K} (h : g.imageReady = false) : Selects g .checking g .degrading
  | blamed {g : Globals K} (h : g.imageError ≠ none) :
      Selects g .degrading g (.selected .subprocess (fallbackDescription imageUnavailable))
  | unblamed {g : Globals K} (h : g.imageError = none) :
      Selects g .degrading g (.selected .subprocess (fallbackDescription daemonUnreachable))

variable {ttl} {g g' : Globals K} {p p' q : Selection K}

/-- Nothing that has happened or was remembered is forgotten. -/
structure Globals.Extends (g g' : Globals K) : Prop where
  log : ∀ deed ∈ g.log, deed ∈ g'.log
  ready : g.imageReady = true → g'.imageReady = true
  error : g.imageError ≠ none → g'.imageError ≠ none

omit [PyFloat K] in
/-- The same globals extend themselves. -/
theorem Globals.Extends.refl (g : Globals K) : g.Extends g := ⟨fun _ => id, id, id⟩

/-- A step of a selection extends the globals. -/
theorem Selects.extends (h : Selects ttl g p g' p') : g.Extends g' := by
  cases h with
  | probe | ensure | refuse => exact ⟨fun _ => List.mem_cons_of_mem _, id, id⟩
  | store | setReady | setError => exact ⟨fun _ => id, by simp, by simp⟩
  | _ => exact .refl g

/-- What the globals remember has happened. -/
structure Globals.Honest (g : Globals K) : Prop where
  available : g.probeResult = true → .probed true ∈ g.log
  unavailable : g.probeResult = false → .probed false ∈ g.log ∨ g.probeExpiry = PyFloat.zero
  ready : g.imageReady = true → .ensured ∈ g.log
  error : g.imageError ≠ none → .refused ∈ g.log

/-- What has happened when a thread stands there. -/
def Selection.Honest (g : Globals K) : Selection K → Prop
  | .idle | .probing | .raised _ => True
  | .clocked now => PyFloat.lt now PyFloat.zero = false
  | .probed answer | .available answer => .probed answer ∈ g.log
  | .unfailed | .building => .probed true ∈ g.log
  | .ensured => .probed true ∈ g.log ∧ .ensured ∈ g.log
  | .refused _ => .probed true ∈ g.log ∧ .refused ∈ g.log
  | .checking => .probed true ∈ g.log ∧ (g.imageReady = true ∨ g.imageError ≠ none)
  | .degrading => .probed false ∈ g.log ∨ g.imageError ≠ none
  | .selected .docker description =>
    description = dockerDescription ∧ .probed true ∈ g.log ∧ .ensured ∈ g.log
  | .selected .subprocess description =>
    description = fallbackDescription imageUnavailable ∧ .refused ∈ g.log ∨
      description = fallbackDescription daemonUnreachable ∧ .probed false ∈ g.log

/-- A selection stays honest while the globals are extended. -/
theorem Selection.Honest.extends (h : p.Honest g) (hg : g.Extends g') : p.Honest g' := by
  cases p with
  | probed | available | unfailed | building => exact hg.log _ h
  | ensured | refused => exact ⟨hg.log _ h.1, hg.log _ h.2⟩
  | checking => exact ⟨hg.log _ h.1, h.2.imp hg.ready hg.error⟩
  | degrading => exact h.imp (hg.log _) hg.error
  | selected backend =>
    cases backend with
    | docker => exact ⟨h.1, hg.log _ h.2.1, hg.log _ h.2.2⟩
    | subprocess => exact h.imp (And.imp_right (hg.log _)) (And.imp_right (hg.log _))
  | _ => exact h

/-- Each step is honest. -/
theorem honest_selects (hg : g.Honest) (hp : p.Honest g) (h : Selects ttl g p g' p') :
    g'.Honest ∧ p'.Honest g' := by
  have hext := h.extends
  have hkept : g'.probeResult = g.probeResult → g'.probeExpiry = g.probeExpiry →
      (g'.imageReady = true → .ensured ∈ g'.log) → (g'.imageError ≠ none → .refused ∈ g'.log) →
        g'.Honest := by
    intro hresult hexpiry hready herror
    refine ⟨fun h => hext.log _ (hg.available (hresult ▸ h)), fun h => ?_, hready, herror⟩
    rw [hexpiry]
    exact (hg.unavailable (hresult ▸ h)).imp_left (hext.log _)
  cases h with
  | start now h => exact ⟨hg, h⟩
  | cached h =>
    refine ⟨hg, ?_⟩
    cases hresult : g.probeResult with
    | true => exact hg.available hresult
    | false =>
      refine (hg.unavailable hresult).resolve_right fun hexpiry => ?_
      rw [hexpiry] at h
      cases h.symm.trans hp
  | probe h =>
    exact ⟨hkept rfl rfl (fun h => hext.log _ (hg.ready h)) fun h => hext.log _ (hg.error h),
      List.mem_cons_self ..⟩
  | store now =>
    refine ⟨⟨fun h => ?_, fun h => .inl ?_, hg.ready, hg.error⟩, hp⟩
    · exact h ▸ hp
    · exact h ▸ hp
  | unavailable => exact ⟨hg, .inl hp⟩
  | failed h => exact ⟨hg, .inr h⟩
  | ready h => exact ⟨hg, hp, .inl h⟩
  | ensure | refuse =>
    refine ⟨hkept rfl rfl (fun h => hext.log _ (hg.ready h)) fun h => hext.log _ (hg.error h), ?_⟩
    exact ⟨List.mem_cons_of_mem _ hp, List.mem_cons_self ..⟩
  | setReady => exact ⟨hkept rfl rfl (fun _ => hp.2) hg.error, hp.1, .inl rfl⟩
  | setError => exact ⟨hkept rfl rfl hg.ready (fun _ => hp.2), hp.1, .inr (by simp)⟩
  | docker h => exact ⟨hg, rfl, hp.1, hg.ready h⟩
  | unbuilt h =>
    refine ⟨hg, .inr (hp.2.resolve_left ?_)⟩
    simp [h]
  | blamed h => exact ⟨hg, .inl ⟨rfl, hg.error h⟩⟩
  | unblamed h => exact ⟨hg, .inr ⟨rfl, hp.resolve_right (fun hne => hne h)⟩⟩
  | _ => exact ⟨hg, by first | exact hp | trivial⟩

end Steps

section Selections

variable {K ι : Type} [PyFloat K] [DecidableEq ι] {ttl : K} {c c' : Threads ι (Globals K) (Selection K)}

variable (K ι) in
/-- A new process, with threads that have selected nothing. -/
def freshProcess : Threads ι (Globals K) (Selection K) := ⟨.fresh K, fun _ => .idle⟩

/-- Whatever threads select at the same time, an executor is what its description says: Docker was
chosen after a probe found the daemon and the image was made sure of, a fallback without a daemon
after a probe found none, and a fallback without an image after it was refused. -/
theorem selections_honest (h : Threads.Steps (Selects ttl) (freshProcess K ι) c) (i : ι)
    {backend : Backend} {description : Str} (hi : c.place i = .selected backend description) :
    match backend with
    | .docker => description = dockerDescription ∧ .probed true ∈ c.shared.log ∧
        .ensured ∈ c.shared.log
    | .subprocess => description = fallbackDescription imageUnavailable ∧ .refused ∈ c.shared.log ∨
        description = fallbackDescription daemonUnreachable ∧ .probed false ∈ c.shared.log := by
  have hannotated : Threads.Annotated (Selects ttl) Globals.Honest Selection.Honest :=
    ⟨honest_selects, fun _ _ hq h => hq.extends h.extends⟩
  have hfresh : (Globals.fresh K).Honest :=
    ⟨nofun, fun _ => .inr rfl, nofun, fun h => absurd rfl h⟩
  have hplace := (hannotated.steps h hfresh fun _ => trivial).2 i
  rw [hi] at hplace
  cases backend with
  | docker => exact hplace
  | subprocess => exact hplace

/-- The globals say whether there is an image. -/
def Globals.Settled (g : Globals K) : Prop := g.imageReady = true ∨ g.imageError ≠ none

/-- The thread has not looked for an error yet. -/
def Selection.Early : Selection K → Prop
  | .idle | .clocked _ | .probing | .probed _ | .available _ => True
  | _ => False

/-- The thread is in `ensure_image`, or just came from there. -/
def Selection.Builds : Selection K → Prop
  | .building | .ensured | .refused _ => True
  | _ => False

/-- No selection is under way. -/
def Selection.Resting : Selection K → Prop
  | .idle | .selected _ _ | .raised _ => True
  | _ => False

/-- What `ensure_image` came to; a probe says nothing about the image. -/
def Deed.settles : Deed → Bool
  | .probed _ => false
  | .ensured | .refused => true

omit [PyFloat K] in
/-- What is settled stays settled. -/
theorem Globals.Extends.settled {g g' : Globals K} (h : g.Extends g') (hg : g.Settled) : g'.Settled :=
  hg.imp h.ready h.error

/-- Once the globals say whether there is an image, a thread that asks them later does not ask again
outside; and once they name an error, it does not get Docker. -/
theorem settled_of_steps (h : Threads.Steps (Selects ttl) c c') (hsettled : c.shared.Settled)
    {i : ι} (hearly : (c.place i).Early) : ¬ (c'.place i).Builds ∧
      (c.shared.imageError ≠ none → ∀ d, c'.place i ≠ .selected .docker d) := by
  constructor
  · refine (h.keeps (G := Globals.Settled) (A := fun g p => ¬ p.Builds ∧
      (p = .unfailed → g.imageReady = true)) (fun hg h => h.extends.settled hg) ?_ ?_ hsettled ?_).2.1
    · intro g g' p p' hg hp h
      cases h with
      | unfailed h => exact ⟨id, fun _ => hg.resolve_right fun hne => hne h⟩
      | unready h => cases (hp.2 rfl).symm.trans h
      | ensure | refuse | ensureRaised | setReady | setError => exact absurd trivial hp.1
      | _ => exact ⟨id, nofun⟩
    · exact fun _ hq h => ⟨hq.1, fun heq => h.extends.ready (hq.2 heq)⟩
    · cases hp : c.place i <;> rw [hp] at hearly <;> first | exact hearly.elim | exact ⟨id, nofun⟩
  · intro herror d hd
    have hkept := (h.keeps (G := fun g => g.imageError ≠ none)
      (A := fun _ (p : Selection K) => p.Early ∨ p = .degrading ∨ (∃ e, p = .raised e) ∨
        ∃ d, p = .selected .subprocess d) (fun hg h => h.extends.error hg) ?_
      (fun _ hq _ => hq) herror (.inl hearly)).2
    · rw [hd] at hkept
      rcases hkept with hkept | hkept | ⟨e, hkept⟩ | ⟨d, hkept⟩ <;> cases hkept
    · intro g g' p p' hg hp h
      cases h with
      | unfailed h => exact absurd h hg
      | probeRaised => exact .inr (.inr (.inl ⟨_, rfl⟩))
      | unavailable | failed => exact .inr (.inl rfl)
      | blamed | unblamed => exact .inr (.inr (.inr ⟨_, rfl⟩))
      | ready | unready | ensure | refuse | ensureRaised | setReady | setError | docker | unbuilt =>
        rcases hp with hp | hp | ⟨e, hp⟩ | ⟨d, hp⟩ <;> cases hp
      | _ => exact .inl trivial

/-- Nothing is known of the image and nothing was tried, or one try has settled it. -/
def Globals.Tidy (g : Globals K) : Prop :=
  g.Settled ∧ g.log.countP Deed.settles = 1 ∨ ¬ g.Settled ∧ g.log.countP Deed.settles = 0

/-- The same for the globals when a thread stands there and no other one is under way. -/
def Selection.Tidy (g : Globals K) : Selection K → Prop
  | .unfailed => g.Tidy ∧ g.imageError = none
  | .building => ¬ g.Settled ∧ g.log.countP Deed.settles = 0
  | .ensured | .refused _ => g.log.countP Deed.settles = 1
  | _ => g.Tidy

omit [PyFloat K] in
/-- A selection that rests leaves the globals as tidy as they are. -/
theorem tidy_of_resting {g : Globals K} {p : Selection K} (h : p.Resting) : p.Tidy g ↔ g.Tidy := by
  cases p <;> first | exact h.elim | exact Iff.rfl

omit [PyFloat K] in
/-- Tidy globals were settled once at most. -/
theorem Globals.Tidy.le_one {g : Globals K} (h : g.Tidy) : g.log.countP Deed.settles ≤ 1 := by
  rcases h with ⟨-, h⟩ | ⟨-, h⟩
  · exact h.le
  · exact h.le.trans (Nat.zero_le 1)

omit [PyFloat K] in
/-- During a tidy selection the globals were settled once at most. -/
theorem Selection.Tidy.le_one {g : Globals K} {p : Selection K} (h : p.Tidy g) :
    g.log.countP Deed.settles ≤ 1 := by
  cases p with
  | unfailed => exact h.1.le_one
  | building => exact h.2.le.trans (Nat.zero_le 1)
  | ensured | refused => exact Nat.le_of_eq h
  | _ => exact Globals.Tidy.le_one h

/-- A step of a tidy selection keeps it tidy. -/
theorem tidy_selects {g g' : Globals K} {p p' : Selection K} (hp : p.Tidy g)
    (h : Selects ttl g p g' p') : p'.Tidy g' := by
  cases h with
  | probe => exact hp
  | store => exact hp
  | unfailed h => exact ⟨hp, h⟩
  | ready => exact hp.1
  | unready h =>
    have hnot : ¬ g.Settled := by
      rintro (hready | herror)
      · cases hready.symm.trans h
      · exact herror hp.2
    exact hp.1.resolve_left fun hs => hnot hs.1
  | ensure | refuse =>
    change List.countP Deed.settles (_ :: g.log) = 1
    rw [List.countP_cons_of_pos rfl, hp.2]
  | ensureRaised => exact .inr hp
  | setReady => exact .inl ⟨.inl rfl, hp⟩
  | setError => exact .inl ⟨.inr (by simp), hp⟩
  | _ => exact hp

variable (ttl) in
/-- The image is made sure of once in a process: as long as selections do not overlap, at most one
call of `ensure_image` has come to a result, and whoever overlaps with whom later, no thread that
asks after this result was stored makes another one. -/
theorem image_settled_once (h : Threads.SerialSteps (Selects ttl) Selection.Resting
    (freshProcess K ι) c) : c.shared.log.countP Deed.settles ≤ 1 ∧
      ∀ c', Threads.Steps (Selects ttl) c c' → c.shared.Settled → ∀ i, (c.place i).Early →
        ¬ (c'.place i).Builds ∧
          (c.shared.imageError ≠ none → ∀ d, c'.place i ≠ .selected .docker d) := by
  refine ⟨?_, fun c' hs hsettled i hearly => settled_of_steps hs hsettled hearly⟩
  have hfresh : (Globals.fresh K).Tidy := .inr ⟨by simp [Globals.Settled, Globals.fresh], rfl⟩
  have hleft : ∀ {g g' : Globals K} {p p' : Selection K}, p.Tidy g → Selects ttl g p g' p' →
      Threads.Left Selection.Resting Globals.Tidy Selection.Tidy g' p' := by
    intro g g' p p' hp h
    exact ⟨fun hrest => (tidy_of_resting hrest).mp (tidy_selects hp h), fun _ => tidy_selects hp h⟩
  rcases h.exclusive (fun hg hrest h => hleft ((tidy_of_resting hrest).mpr hg) h)
    (fun hp _ h => hleft hp h) (.inl ⟨fun _ => trivial, hfresh⟩) with ⟨-, hg⟩ | ⟨i, -, -, hi⟩
  · exact hg.le_one
  · exact hi.le_one

end Selections

section Examples

/-- A daemon that answers, an image that is missing, and its build. -/
def linuxDaemon : Subprocess := .finished 0 (lit "linux\n") []

def noImage : Subprocess := .finished 1 [] (lit "No such image")

def builtImage : Subprocess := .finished 0 [] []

/-- The daemon answers the probe. -/
theorem linuxDaemon_available : isAvailable linuxDaemon = .ok true := by decide +kernel

def failedBuild : Subprocess := .finished 1 [] (lit "no space left")

/-- The build fails. -/
theorem failedBuild_refused : ensureImage true noImage failedBuild =
    .error ⟨dockerUnavailable, lit "sandbox image build failed: no space left"⟩ := by decide +kernel

/-- Two selections at the same time: one build is refused, and then the other one succeeds. -/
theorem overlapping_selections : ∃ c : Threads Bool (Globals ℚ) (Selection ℚ),
    Threads.Steps (Selects 30) (freshProcess ℚ Bool) c ∧
      c.place true = .selected .docker dockerDescription ∧
      c.place false = .selected .subprocess (fallbackDescription imageUnavailable) :=
  have hbuilt : ensureImage true noImage builtImage = .ok true := rfl
  ⟨_, .tail (.tail (.tail (.tail (.tail (.tail (.tail (.tail (.tail (.tail (.tail (.tail (.tail (.tail
    (.tail (.tail (.tail (.tail (.tail .refl
    (.thread true (.start 0 (by decide))))
    (.thread false (.start 0 (by decide))))
    (.thread true (.expired (by decide))))
    (.thread false (.expired (by decide))))
    (.thread true (.probe linuxDaemon_available)))
    (.thread false (.probe linuxDaemon_available)))
    (.thread true (.store 0)))
    (.thread false (.store 0)))
    (.thread true (.unfailed rfl)))
    (.thread false (.unfailed rfl)))
    (.thread true (.unready rfl)))
    (.thread false (.unready rfl)))
    (.thread false (.refuse failedBuild_refused rfl)))
    (.thread false .setError))
    (.thread false (.unbuilt rfl)))
    (.thread true (.ensure hbuilt)))
    (.thread false (.blamed (by simp))))
    (.thread true .setReady))
    (.thread true (.docker rfl)), rfl, rfl⟩

/-- Both got what their description says. -/
theorem selections_honest_overlapping : ∃ c : Threads Bool (Globals ℚ) (Selection ℚ),
    (c.place true = .selected .docker dockerDescription ∧ .probed true ∈ c.shared.log ∧
      .ensured ∈ c.shared.log) ∧
    c.place false = .selected .subprocess (fallbackDescription imageUnavailable) ∧
      .refused ∈ c.shared.log := by
  obtain ⟨c, hsteps, hdocker, hfallback⟩ := overlapping_selections
  have hreasons : fallbackDescription imageUnavailable ≠ fallbackDescription daemonUnreachable := by
    decide +kernel
  have hrefused := (selections_honest hsteps false hfallback).resolve_right fun h => hreasons h.1
  exact ⟨c, ⟨hdocker, (selections_honest hsteps true hdocker).2⟩, hfallback, hrefused.2⟩

/-- A build is refused, and two threads that select later at the same time are told so. -/
theorem build_refused : ∃ c c' : Threads (Fin 3) (Globals ℚ) (Selection ℚ),
    Threads.SerialSteps (Selects 30) Selection.Resting (freshProcess ℚ (Fin 3)) c ∧
      c.shared.imageError ≠ none ∧ (c.place 1).Early ∧ (c.place 2).Early ∧
      Threads.Steps (Selects 30) c c' ∧
      c'.place 1 = .selected .subprocess (fallbackDescription imageUnavailable) ∧
      c'.place 2 = .selected .subprocess (fallbackDescription imageUnavailable) := by
  have halone : ∀ {place : Fin 3 → Selection ℚ}, (place 1).Resting → (place 2).Resting →
      ∀ j, j ≠ 0 → (place j).Resting := by
    intro place h₁ h₂ j hj
    obtain rfl | rfl : j = 1 ∨ j = 2 := by omega
    · exact h₁
    · exact h₂
  refine ⟨_, _, .tail (.tail (.tail (.tail (.tail (.tail (.tail (.tail (.tail (.tail .refl
    (.thread 0 (halone trivial trivial) (.start 0 (by decide))))
    (.thread 0 (halone trivial trivial) (.expired (by decide))))
    (.thread 0 (halone trivial trivial) (.probe linuxDaemon_available)))
    (.thread 0 (halone trivial trivial) (.store 0)))
    (.thread 0 (halone trivial trivial) (.unfailed rfl)))
    (.thread 0 (halone trivial trivial) (.unready rfl)))
    (.thread 0 (halone trivial trivial) (.refuse failedBuild_refused rfl)))
    (.thread 0 (halone trivial trivial) .setError))
    (.thread 0 (halone trivial trivial) (.unbuilt rfl)))
    (.thread 0 (halone trivial trivial) (.blamed (by simp))), by simp, trivial, trivial,
    .tail (.tail (.tail (.tail (.tail (.tail (.tail (.tail .refl
    (.thread 1 (.start 0 (by decide))))
    (.thread 2 (.start 0 (by decide))))
    (.thread 1 (.cached (by decide +kernel))))
    (.thread 2 (.cached (by decide +kernel))))
    (.thread 2 (.failed (by simp))))
    (.thread 1 (.failed (by simp))))
    (.thread 1 (.blamed (by simp))))
    (.thread 2 (.blamed (by simp))), rfl, rfl⟩

/-- There was one try, and neither of them made another one. -/
theorem image_settled_once_refused : ∃ c c' : Threads (Fin 3) (Globals ℚ) (Selection ℚ),
    c.shared.log.countP Deed.settles ≤ 1 ∧ Threads.Steps (Selects 30) c c' ∧
      c'.place 1 = .selected .subprocess (fallbackDescription imageUnavailable) ∧
      (∀ d, c'.place 2 ≠ .selected .docker d) ∧ ¬ (c'.place 1).Builds ∧ ¬ (c'.place 2).Builds := by
  obtain ⟨c, c', hserial, herror, hearly₁, hearly₂, hsteps, hfallback, -⟩ := build_refused
  obtain ⟨honce, hlater⟩ := image_settled_once 30 hserial
  exact ⟨c, c', honce, hsteps, hfallback, (hlater c' hsteps (.inr herror) 2 hearly₂).2 herror,
    (hlater c' hsteps (.inr herror) 1 hearly₁).1, (hlater c' hsteps (.inr herror) 2 hearly₂).1⟩

/-- Selections that overlap may both build the image. -/
theorem image_built_twice : ∃ c : Threads Bool (Globals ℚ) (Selection ℚ),
    Threads.Steps (Selects 30) (freshProcess ℚ Bool) c ∧ c.shared.log.countP Deed.settles = 2 :=
  have hbuilt : ensureImage true noImage builtImage = .ok true := rfl
  ⟨_, .tail (.tail (.tail (.tail (.tail (.tail (.tail (.tail (.tail (.tail (.tail (.tail (.tail (.tail
    .refl
    (.thread true (.start 0 (by decide))))
    (.thread false (.start 0 (by decide))))
    (.thread true (.expired (by decide))))
    (.thread false (.expired (by decide))))
    (.thread true (.probe linuxDaemon_available)))
    (.thread false (.probe linuxDaemon_available)))
    (.thread true (.store 0)))
    (.thread false (.store 0)))
    (.thread true (.unfailed rfl)))
    (.thread false (.unfailed rfl)))
    (.thread true (.unready rfl)))
    (.thread false (.unready rfl)))
    (.thread true (.ensure hbuilt)))
    (.thread false (.ensure hbuilt)), rfl⟩

end Examples

end CognitiveTree.Sandbox

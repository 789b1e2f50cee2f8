import LighterMM.Lib.Trans

/-!
# Simulation between partial transition systems

The concrete system takes coarse steps, each of which the abstract system matches with a run of its own from
abstraction to abstraction (`Simulates`). So every concrete run is an abstract run (`Simulates.run`), and the
abstraction of every concrete state reached is one that the abstract system reaches (`Simulates.reach`).
-/

namespace Trans

variable {C B S A : Type*}

/-- Under the invariant `I`, each step of `stepC` is the run `acts` of `step` between the abstractions. -/
structure Simulates (stepC : C → B → Option C) (I : C → Prop) (step : S → A → Option S) (abs : C → S)
    (acts : C → B → List A) : Prop where
  keeps : ∀ c b c', I c → stepC c b = some c' → I c'
  sim : ∀ c b c', I c → stepC c b = some c' → run step (abs c) (acts c b) = some (abs c')

/-- The abstract actions of a concrete run. -/
def actsOf (stepC : C → B → Option C) (acts : C → B → List A) : C → List B → List A
  | _, [] => []
  | c, b :: bs => acts c b ++ ((stepC c b).map fun c' => actsOf stepC acts c' bs).getD []

namespace Simulates

variable {stepC : C → B → Option C} {I : C → Prop} {step : S → A → Option S} {abs : C → S}
  {acts : C → B → List A} {c c' : C} {bs : List B}

/-- **Every concrete run is an abstract run.** -/
theorem run (h : Simulates stepC I step abs acts) (hI : I c) (hrun : Trans.run stepC c bs = some c') :
    Trans.run step (abs c) (actsOf stepC acts c bs) = some (abs c') := by
  induction bs generalizing c with
  | nil =>
    cases hrun
    rfl
  | cons b bs ih =>
    obtain ⟨d, hd, hrest⟩ := Option.bind_eq_some_iff.mp hrun
    rw [actsOf, hd, Option.map_some, Option.getD_some, run_append, h.sim c b d hI hd, Option.bind_some]
    exact ih (h.keeps c b d hI hd) hrest

theorem reach (h : Simulates stepC I step abs acts) (hI : I c) (hr : Reach stepC c c') :
    Reach step (abs c) (abs c') := by
  obtain ⟨bs, hbs⟩ := reach_iff_run.mp hr
  exact reach_iff_run.mpr ⟨_, h.run hI hbs⟩

end Simulates

end Trans

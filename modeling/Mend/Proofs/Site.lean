import Mend.Atlas.Blast
import Mend.Atlas.Paint
import Mend.Atlas.Restore
import Mend.Proofs.Scheduler.History

set_option autoImplicit false

/-! # An atlas and the scheduler that restores it

A site is an atlas together with a scheduler. What happens at it is a list of acts: damage is handed
in, the speed changes, a tick runs on the atlas, or the atlas itself is changed, by painting or by
blasts. To the scheduler this is a run of deeds, whose ticks come with the atlas as it is then
(`Site.scheduler_run`). -/

namespace Mend

/-- An atlas and the scheduler that restores it. -/
structure Site where
  atlas : Atlas
  scheduler : Scheduler

/-- Something that happens at a site. -/
inductive Act where
  | submit (parcel : Parcel)
  | send (parcel : Parcel)
  | setSpeed (speed : Speed)
  | tick {η : Type} [Listener η] (listener : η)
  | setNatural (name : WorldName) (pos : Pos) (content : Content)
  | place (name : WorldName) (pos : Pos) (content : Content)
  | fillBall (name : WorldName) (center : Pos) (radius : Count) (material : String)
  | clearBox (name : WorldName) (box : Box) (material : String)
  | explode (name : WorldName) (blast : Blast)

/-- The damage that an act hands in. -/
def Act.parcel? : Act → Option Parcel
  | .submit p | .send p => some p
  | _ => none

namespace Site

/-- What an act is to the scheduler, if anything. -/
def deedOf (x : Site) : Act → Option Deed
  | .submit p => some (.submit p)
  | .send p => some (.send p)
  | .setSpeed speed => some (.setSpeed speed)
  | @Act.tick _ _ listener => some (.tick x.atlas listener)
  | .setNatural _ _ _ | .place _ _ _ | .fillBall _ _ _ _ | .clearBox _ _ _ | .explode _ _ => none

/-- The atlas after an act. A tick that fails changes nothing. -/
def atlasAfter (x : Site) : Act → Atlas
  | .submit _ | .send _ | .setSpeed _ => x.atlas
  | @Act.tick _ _ listener => match x.scheduler.tick x.atlas listener with
    | .ok r => r.world
    | .error _ => x.atlas
  | .setNatural name pos content => (x.atlas.setNatural name pos content).2
  | .place name pos content => (x.atlas.place name pos content).2
  | .fillBall name center radius material => (x.atlas.fillBall name center radius material).2
  | .clearBox name box material => (x.atlas.clearBox name box material).2
  | .explode name blast => (x.atlas.explode name blast).2

/-- The site after an act. -/
def after (x : Site) (act : Act) : Site where
  atlas := x.atlasAfter act
  scheduler := (x.deedOf act).elim x.scheduler x.scheduler.after

/-- The site after a list of acts. -/
def run (x : Site) (acts : List Act) : Site := acts.foldl after x

/-- What a list of acts is to the scheduler. -/
def deeds (x : Site) : List Act → List Deed
  | [] => []
  | act :: rest => (x.deedOf act).toList ++ (x.after act).deeds rest

theorem run_cons (x : Site) (act : Act) (rest : List Act) :
    x.run (act :: rest) = (x.after act).run rest :=
  rfl

theorem run_append (x : Site) (acts more : List Act) :
    x.run (acts ++ more) = (x.run acts).run more :=
  List.foldl_append

/-- To the scheduler a list of acts is a run of deeds. -/
theorem scheduler_run (x : Site) (acts : List Act) :
    (x.run acts).scheduler = x.scheduler.run (x.deeds acts) := by
  induction acts generalizing x with
  | nil => rfl
  | cons act rest ih =>
      rw [run_cons, ih, deeds, Scheduler.run_append]
      congr 1
      cases act <;> rfl

/-- What acts hand in is what the deeds hand in that they are to the scheduler. -/
theorem handedIn_deeds (x : Site) (acts : List Act) :
    handedIn (x.deeds acts) = acts.filterMap Act.parcel? := by
  induction acts generalizing x with
  | nil => rfl
  | cons act rest ih =>
      rw [deeds, handedIn_append, ih, ← List.singleton_append, List.filterMap_append]
      congr 1
      cases act <;> rfl

end Site

end Mend

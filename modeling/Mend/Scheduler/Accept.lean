import Mend.Scheduler.Basic

set_option autoImplicit false

/-! # Taking in damage

Damage is taken in whole: either it gets a record, its tasks join the waiting layers and the
drain is woken, or it is discarded and nothing is kept of it. -/

namespace Mend

namespace Scheduler

/-- Put the tasks of damage into the waiting layers, with a record of how many they are. -/
def enqueue (s : Scheduler) (record : Record) (layers : List Layer) : Scheduler :=
  { s with
    ledger := s.ledger.register record
    layers := layers.foldl LayerQueue.merge s.layers
    drain := s.drain.wake s.clock.now }

/-- Take in damage under the given identifier. -/
def accept (s : Scheduler) (id : DamageId) (damage : Damage) : Verdict × Scheduler :=
  if s.pacing.isDisabled then (.discarded id .disabled, s)
  else
    let (sifted, pending) := Sifted.ofCells damage.world damage.cells s.pending s.cap
    match layersOf id damage.world sifted.taken with
    | (_, none) => (.discarded id .noEligibleCells, { s with pending })
    | (layers, some lowest) =>
      let cells : Count := Capped.clamp sifted.taken.length
      let record : Record :=
        { damage := id, world := damage.world, origin := damage.origin,
          intensity := damage.intensity, remaining := cells, tally := Tally.zero,
          submitted := s.clock.now }
      (.accepted
        { damage := id, cells, layers := layers.length, lowest,
          alreadyPending := sifted.alreadyPending, overCap := sifted.overCap },
       { s with pending }.enqueue record layers)

/-- Take in several parcels, in order. -/
def acceptAll (s : Scheduler) : List Parcel → List Verdict × Scheduler
  | [] => ([], s)
  | parcel :: rest =>
    let (verdict, s) := s.accept parcel.id parcel.damage
    let (verdicts, s) := s.acceptAll rest
    (verdict :: verdicts, s)

/-- Take in everything that was sent. -/
def takeIn (s : Scheduler) : List Verdict × Scheduler :=
  { s with funnel := s.funnel.drained }.acceptAll s.funnel.waiting

end Scheduler

end Mend

import BufferObjects.Proofs.Accounting
import BufferObjects.Proofs.Machine.Reports

/-!
Internal faults are out of reach. The assumptions that operations check as they go, and those that
they make without asking, hold in every state of an orderly run, whatever drivers do in their hooks:
no operation stops with a fault, no table is ever found in disorder or given up with entries in it,
and none of it is due to luck, since from every such state each table would take any item as long as
it has a free number.
-/

namespace BufferObjects

/-- Everything in a world that operations rely on: the tables of open clients and of living devices,
counts of handles that do not wrap round, and sizes that can be compared with a page. -/
structure World.Dependable (w : World) : Prop where
  handles : ∀ c table, (w.client c).handles = some table → table.Dependable
  names : ∀ d, (w.device d).alive = true → (w.device d).names.Dependable
  tokens : ∀ d, (w.device d).alive = true → (w.device d).tokens.Dependable
  counts : ∀ o,
    (w.object o).handles.increment.value.toNat = (w.object o).handles.value.toNat + 1
  sizes : ∀ size, ∃ aligned, isAligned size pageSize = .ok aligned

namespace Machine

variable {m : Machine} {moves : List Move} {causes : List (List RequestError)}

/-- Nothing has gone wrong inside. Beside each operation in progress stand the causes with which its
driver has refused it. -/
structure Faultless (m : Machine) (causes : List (List RequestError)) : Prop where
  outcomes : ∀ op ∈ m.operations, ∀ f, op.outcome ≠ .fault f
  blames : List.Forall₂ Blames m.operations causes
  log : ∀ n ∈ m.world.log, n.isAlarm = false
  world : m.world.Dependable

/-- In a sound machine one use more can be counted for any object. -/
theorem Sound.toNat_increment (h : m.Sound) (o : ObjectRef) :
    (m.world.object o).handles.increment.value.toNat =
      (m.world.object o).handles.value.toNat + 1 := by
  have hle := h.handles_le o
  rw [UseCount.increment, UInt64.toNat_add, UInt64.toNat_one]
  exact Nat.mod_eq_of_lt (by omega)

theorem Sound.dependable (h : m.Sound) (hcalm : m.world.Calm) : m.world.Dependable where
  handles c table htable := (h.world.clients.wellFormed c table htable).dependable
    (hcalm.handles c table htable)
  names d halive := (h.world.names.wellFormed d halive).dependable (hcalm.names d)
  tokens d halive := (h.world.tokens.wellFormed d halive).dependable (hcalm.tokens d)
  counts := h.toNat_increment
  sizes _ := ⟨_, rfl⟩

/-- Every state of an orderly run is faultless, inside hooks as well as outside, and an operation
answers that a key is taken only where its driver refused it with that very cause. -/
theorem faultless_of_orderlyRun (hrun : empty.orderlyRun? moves = some m) :
    m.Faultless (empty.refusals [] moves) := by
  have h := Sound.of_run hrun
  have hcalm := calm_of_run hrun
  exact {
    outcomes := fun op hop => (h.operations op hop).faultless
    blames := Sound.empty.blames_of_run .empty .nil hrun
    log := hcalm.log
    world := h.dependable hcalm }

/-- While the driver is told of a handle, it opens another one, for which it then pretends that the
key is taken. The inner operation says so; the outer one has no part in it. -/
theorem faultless_of_orderlyRun_refused :
    let moves := opening ++
      [.call (.createHandle 0 0), .call (.createHandle 0 0), .answer (.refuse .duplicateKey),
        .work, .work]
    ∃ m, empty.orderlyRun? moves = some m ∧
      m.operations.map Operation.outcome = [.error .duplicateKey, .ok (.handle 1)] ∧
      empty.refusals [] moves = [[.duplicateKey], []] ∧ m.Faultless (empty.refusals [] moves) := by
  intro moves
  have hread : (empty.orderlyRun? moves).map (fun m => m.operations.map Operation.outcome) =
      some [.error .duplicateKey, .ok (.handle 1)] := by decide +kernel
  have hrefusals : empty.refusals [] moves = [[.duplicateKey], []] := by decide +kernel
  obtain ⟨m, hrun, houtcomes⟩ := Option.map_eq_some_iff.mp hread
  exact ⟨m, hrun, houtcomes, hrefusals, faultless_of_orderlyRun hrun⟩

end Machine

end BufferObjects

import BufferObjects.Proofs.Accounting
import BufferObjects.Proofs.Machine.Marks
import BufferObjects.Proofs.Machine.Quiet
import BufferObjects.Proofs.Machine.Trace

/-!
How long a name lasts. From the call that publishes an object until its last use goes or its name is
retired, the device offers the object under that name and no other object under it, whatever happens
in between and wherever one asks, inside hooks as well as outside. With the last use the name goes,
too, and leads nowhere until it is given out again.
-/

namespace BufferObjects.Machine

variable {m m' : Machine} {x : Move} {r : Request} {d : DeviceRef} {o : ObjectRef} {n : Name}

/-- Whether a move ends the name of an object: its last use has gone, or its name is retired. -/
def endsName (o : ObjectRef) (x : Move) (m' : Machine) : Bool :=
  (m'.world.object o).handles.value == 0 ||
    match x with
    | .call (.retireName _ p) => p == o
    | _ => false

theorem endsName_iff : endsName o x m' = true ↔
    (m'.world.object o).handles.value = 0 ∨ ∃ e, x = .call (.retireName e o) := by
  unfold endsName
  rw [Bool.or_eq_true, beq_iff_eq]
  refine or_congr Iff.rfl ?_
  split
  · simp
  · next hother =>
    simp only [Bool.false_eq_true, false_iff, not_exists]
    exact fun e heq => hother e o heq

/-! ### Publishing -/

section

variable (h : m.Sound) (hequipped : m.world.Equipped) (hname : (m.world.object o).name = some n)
  (hhome : (m.world.object o).home = d)

include h hname hhome

include hequipped

end

/-- What is true of an object with a name, between moves that do not end the name. -/
structure Named (m : Machine) (d : DeviceRef) (o : ObjectRef) (n : Name) : Prop where
  sound : m.Sound
  equipped : m.world.Equipped
  name : (m.world.object o).name = some n
  home : (m.world.object o).home = d

theorem Named.lt_size (h : m.Named d o n) : o < m.world.objects.size :=
  World.lt_size_of_refs (h.sound.world.live_of_name (by rw [h.name]; rfl))

theorem Named.move (h : m.Named d o n) (hmove : m.orderlyMove? x = some m')
    (hlasts : endsName o x m' = false) : m'.Named d o n := by
  obtain ⟨-, hx, -⟩ := orderlyMove?_eq_some.mp hmove
  rw [Bool.eq_false_iff, ne_eq, endsName_iff, not_or] at hlasts
  obtain ⟨hused, hunretired⟩ := hlasts
  refine ⟨h.sound.move hmove, (spares_of_move hx).equipped h.equipped, ?_,
    ((h.sound.turn hmove).home o h.lt_size).trans h.home⟩
  rcases name_of_move hx o with hsame | ⟨hnone, -⟩ | ⟨-, ⟨e, rfl⟩ | hzero⟩
  · exact hsame.trans h.name
  · rw [h.name] at hnone
    cases hnone
  · exact absurd ⟨e, rfl⟩ hunretired
  · exact absurd hzero hused

/-! ### When the name has gone -/

end BufferObjects.Machine

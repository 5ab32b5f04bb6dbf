import BufferObjects.Proofs.Accounting

/-!
Names. A device's table and the objects' own fields say the same at every point of an orderly run,
and the ids in use are the keys of the table. An object has a name only as long as it has a handle,
in a table or in the hands of an operation that has yet to uncount it.
-/

namespace BufferObjects.Machine

variable {m : Machine} {moves : List Move}

theorem name_range {w : World} {d : DeviceRef} (h : w.NamesSound)
    (halive : (w.device d).alive = true) {n : Name}
    (hused : (w.device d).names.ids.isAllocated n = true) : 1 ≤ n ∧ n ≤ 0x7fffffff := by
  have hwf := h.wellFormed d halive
  obtain ⟨hfirst, hlast⟩ := IdAllocator.range_of_isAllocated hused
  rw [hwf.first_eq] at hfirst
  rw [hwf.last_eq] at hlast
  exact ⟨hfirst, hlast⟩

/-- In every state of an orderly run, inside hooks as well as outside, the names of each device and
the names that objects carry are the same; an object has one name and a name one object; the ids in
use are the keys of the table and never zero; and what has a name has a handle. -/
theorem names_of_orderlyRun (hrun : empty.orderlyRun? moves = some m) :
    (∀ d, (m.world.device d).alive = true →
      (∀ n o, (m.world.device d).names.find? n = some o ↔ 0 < (m.world.object o).refs ∧
        (m.world.object o).home = d ∧ (m.world.object o).name = some n) ∧
      (∀ n n' o, (m.world.device d).names.find? n = some o →
        (m.world.device d).names.find? n' = some o → n = n') ∧
      (∀ key, ((m.world.device d).names.entries.find? key).isSome = true ↔
        ∃ n : Name, n.toUInt64 = key ∧ (m.world.device d).names.ids.isAllocated n = true) ∧
      (∀ n, (m.world.device d).names.ids.isAllocated n = true → 1 ≤ n ∧ n ≤ 0x7fffffff)) ∧
    (∀ o, (m.world.object o).name.isSome = true →
      (m.world.device (m.world.object o).home).alive = true ∧
        1 ≤ (m.world.object o).handles.value.toNat) := by
  have h := Sound.of_run hrun
  have hnames := h.world.names
  refine ⟨fun d halive => ⟨fun n o => ?_, fun n n' o hn hn' => ?_, ?_, fun n => ?_⟩,
    fun o ho => ⟨hnames.alive o ho, ?_⟩⟩
  · rw [hnames.find?_iff d n o halive]
    constructor
    · rintro ⟨hhome, hname⟩
      exact ⟨h.world.live_of_name (by rw [hname]; rfl), hhome, hname⟩
    · rintro ⟨-, hhome, hname⟩
      exact ⟨hhome, hname⟩
  · obtain ⟨-, hname⟩ := (hnames.find?_iff d n o halive).mp hn
    obtain ⟨-, hname'⟩ := (hnames.find?_iff d n' o halive).mp hn'
    exact Option.some.inj (hname.symm.trans hname')
  · exact (hnames.wellFormed d halive).numbered.isSome_find?_iff
  · exact name_range hnames halive
  · have hused := h.world.named_used o ho
    rw [h.handles_eq o]
    exact hused

/-- An object is opened and named, and loses its only handle. While the driver is told, the handle
is still counted, and so the name is still there; it can even be opened again. -/
theorem names_of_orderlyRun_closing :
    let moves := opening ++
      [.call (.createHandle 0 0), .answer .accept, .finish,
        .call (.nameHandle 0 0 1), .work, .finish,
        .call (.deleteHandle 0 1), .call (.openName 0 0 1)]
    ∃ m, empty.orderlyRun? moves = some m ∧ (m.world.object 0).name = some 1 ∧
      (m.world.device 0).names.find? 1 = some 0 ∧
      1 ≤ (m.world.object 0).handles.value.toNat := by
  intro moves
  have hread : (empty.orderlyRun? moves).map (fun m =>
      ((m.world.object 0).name, (m.world.object 0).home, decide (0 < (m.world.object 0).refs),
        (m.world.device 0).alive)) = some (some 1, 0, true, true) := by decide +kernel
  obtain ⟨m, hrun, hfacts⟩ := Option.map_eq_some_iff.mp hread
  obtain ⟨hname, hhome, hlive, halive⟩ : (m.world.object 0).name = some 1 ∧
      (m.world.object 0).home = 0 ∧ 0 < (m.world.object 0).refs ∧
      (m.world.device 0).alive = true := by simpa using hfacts
  obtain ⟨htables, hnamed⟩ := names_of_orderlyRun hrun
  exact ⟨m, hrun, hname, ((htables 0 halive).1 1 0).mpr ⟨hlive, hhome, hname⟩,
    (hnamed 0 (by rw [hname]; rfl)).2⟩

end BufferObjects.Machine

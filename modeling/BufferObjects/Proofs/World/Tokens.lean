import BufferObjects.Proofs.World.Restoring

/-!
Giving tokens to objects and taking them away. Both move the object's field and the table of its
device together. Taking a token away never fails, also not that of an object which is dying and
whose references are gone already.
-/

namespace BufferObjects.World

variable {w w' : World} {outside uses : List ObjectRef}

/-! ### Worlds with other tokens -/

/-- Only tokens differ, and what has been reported. -/
structure SameButTokens (w w' : World) : Prop where
  clients_eq : w'.clients = w.clients
  size_eq : w'.objects.size = w.objects.size
  object_eq : ∀ p, ∃ token, w'.object p = { w.object p with token }
  device_eq : ∀ e, ∃ tokens, w'.device e = { w.device e with tokens }

namespace SameButTokens

variable {α : Type}

theorem refl (w : World) : w.SameButTokens w := ⟨rfl, rfl, fun _ => ⟨_, rfl⟩, fun _ => ⟨_, rfl⟩⟩

theorem trans {w'' : World} (h : w.SameButTokens w') (h' : w'.SameButTokens w'') :
    w.SameButTokens w'' := by
  refine ⟨h'.clients_eq.trans h.clients_eq, h'.size_eq.trans h.size_eq, fun p => ?_, fun e => ?_⟩
  · obtain ⟨token, hp⟩ := h.object_eq p
    obtain ⟨token', hp'⟩ := h'.object_eq p
    exact ⟨token', by rw [hp', hp]⟩
  · obtain ⟨tokens, he⟩ := h.device_eq e
    obtain ⟨tokens', he'⟩ := h'.device_eq e
    exact ⟨tokens', by rw [he', he]⟩

theorem note (h : w.SameButTokens w') (n : Notice) : w.SameButTokens (w'.note n) :=
  ⟨h.clients_eq, h.size_eq, h.object_eq, h.device_eq⟩

theorem object_read (h : w.SameButTokens w') (f : BufferObject → α)
    (hf : ∀ x token, f { x with token } = f x) (p : ObjectRef) :
    f (w'.object p) = f (w.object p) := by
  obtain ⟨token, hp⟩ := h.object_eq p
  rw [hp, hf]

theorem device_read (h : w.SameButTokens w') (f : Device → α)
    (hf : ∀ x tokens, f { x with tokens } = f x) (e : DeviceRef) :
    f (w'.device e) = f (w.device e) := by
  obtain ⟨tokens, he⟩ := h.device_eq e
  rw [he, hf]

theorem name_eq (h : w.SameButTokens w') (p : ObjectRef) :
    (w'.object p).name = (w.object p).name := h.object_read BufferObject.name (fun _ _ => rfl) p

theorem refs_eq (h : w.SameButTokens w') (p : ObjectRef) :
    (w'.object p).refs = (w.object p).refs := h.object_read BufferObject.refs (fun _ _ => rfl) p

theorem home_eq (h : w.SameButTokens w') (p : ObjectRef) :
    (w'.object p).home = (w.object p).home := h.object_read BufferObject.home (fun _ _ => rfl) p

theorem prepared_eq (h : w.SameButTokens w') (p : ObjectRef) :
    (w'.object p).prepared = (w.object p).prepared :=
  h.object_read BufferObject.prepared (fun _ _ => rfl) p

theorem alive_eq (h : w.SameButTokens w') (e : DeviceRef) :
    (w'.device e).alive = (w.device e).alive := h.device_read Device.alive (fun _ _ => rfl) e

theorem keeps (h : w.SameButTokens w') : w.Keeps w' :=
  .of_objects h.clients_eq h.size_eq fun p =>
    ⟨h.home_eq p, h.prepared_eq p, by rw [h.refs_eq]⟩

/-- If the new tokens are in order, everything is. -/
theorem consistent (h : w.SameButTokens w') (hcounted : w.Counted outside uses)
    (hclients : w.ClientsSound) (hkept : w.KeptAlive) (hnames : w.NamesSound)
    (htokens : w'.TokensSound) : w'.Consistent outside uses where
  counted := hcounted.frame h.clients_eq fun p =>
    ⟨h.refs_eq p, by rw [h.name_eq], h.object_read BufferObject.handles (fun _ _ => rfl) p⟩
  clients := hclients.frame h.clients_eq (Nat.le_of_eq h.size_eq.symm) fun p _ => h.home_eq p
  kept := hkept.frame h.clients_eq fun e =>
    ⟨fun he => by rwa [h.device_read Device.held (fun _ _ => rfl)] at he,
      fun he => by rwa [h.alive_eq]⟩
  names := hnames.frame
    (fun e => ⟨h.device_read Device.names (fun _ _ => rfl) e, h.alive_eq e⟩) h.name_eq
    fun p _ => h.home_eq p
  tokens := htokens

theorem sound (h : w.SameButTokens w') (hsound : w.Sound outside uses)
    (htokens : w'.TokensSound) : w'.Sound outside uses where
  toConsistent := h.consistent hsound.counted hsound.clients hsound.kept hsound.names htokens
  named_used p hp := by
    rw [h.name_eq] at hp
    rw [handlesTo_congr h.clients_eq]
    exact hsound.named_used p hp

end SameButTokens

/-- An object has another token, or none; the tokens of its device have changed with it. -/
structure Retokens (w w' : World) (o : ObjectRef) (tokens : TokenTable) (token : Option Token) :
    Prop where
  object_eq : ∀ p, w'.object p = if o = p then { w.object p with token } else w.object p
  device_eq : ∀ e, w'.device e =
    if (w.object o).home = e then { w.device e with tokens } else w.device e
  clients_eq : w'.clients = w.clients
  size_objects : w'.objects.size = w.objects.size
  size_devices : w'.devices.size = w.devices.size

namespace Retokens

variable {o : ObjectRef} {tokens : TokenTable} {token : Option Token}

theorem same (h : w.Retokens w' o tokens token) : w.SameButTokens w' := by
  refine ⟨h.clients_eq, h.size_objects, fun p => ?_, fun e => ?_⟩
  · rw [h.object_eq]
    split <;> exact ⟨_, rfl⟩
  · rw [h.device_eq]
    split <;> exact ⟨_, rfl⟩

theorem token_eq (h : w.Retokens w' o tokens token) (p : ObjectRef) :
    (w'.object p).token = if o = p then token else (w.object p).token := by
  rw [h.object_eq]
  split <;> rfl

/-- The tokens agree again if the new table leads to what carries a token now. -/
theorem tokensAgree (h : w.Retokens w' o tokens token) (hagree : w.TokensAgree)
    (halive : (w.device (w.object o).home).alive = true) (htokens : tokens.WellFormed)
    (hleads : Leads tokens.entries.find? (fun p => (w.object p).home)
      (fun p => if o = p then token else (w.object p).token) (w.object o).home) :
    w'.TokensAgree where
  wellFormed e he := by
    rw [h.same.alive_eq] at he
    rw [h.device_eq]
    split
    · exact htokens
    · exact hagree.wellFormed e he
  home_lt p hp := by
    rw [h.token_eq] at hp
    rw [h.same.home_eq, h.size_devices]
    split at hp
    · next heq =>
      subst heq
      exact lt_size_of_alive halive
    · exact hagree.home_lt p hp
  find?_iff e t p he := by
    rw [h.same.alive_eq] at he
    rw [h.device_eq, h.same.home_eq, h.token_eq]
    split
    · next heq =>
      subst heq
      exact hleads t p
    · next haway =>
      exact (hagree.leads he).elsewhere haway (fun q hq => if_neg hq) t p
  token_le p t hp := by
    rw [h.token_eq] at hp
    split at hp
    · -- the table leads to the object, and what is in the table has room in an address
      next heq =>
      subst heq
      have hfound := (hleads t o).mpr ⟨rfl, (if_pos rfl).trans hp⟩
      exact htokens.fits.le_maxToken (htokens.given t o hfound)
    · exact hagree.token_le p t hp
  unique p q t hp hq heq := by
    rw [h.token_eq] at hp hq
    rw [h.same.home_eq, h.same.home_eq] at heq
    by_cases hhome : (w.object p).home = (w.object o).home
    · have hfound := (hleads t p).mpr ⟨hhome, hp⟩
      rw [(hleads t q).mpr ⟨heq.symm.trans hhome, hq⟩] at hfound
      exact (Option.some.inj hfound).symm
    · rw [if_neg (by rintro rfl; exact hhome rfl)] at hp
      rw [if_neg (by rintro rfl; exact hhome heq)] at hq
      exact hagree.unique p q t hp hq heq

end Retokens

/-! ### Carrying -/

/-- A living object that carries a token of its living device. -/
structure Carries (w : World) (d : DeviceRef) (o : ObjectRef) (t : Token) : Prop where
  alive : (w.device d).alive = true
  live : 0 < (w.object o).refs
  home : (w.object o).home = d
  token : (w.object o).token = some t

theorem TokensSound.find?_iff_carries (h : w.TokensSound) {d : DeviceRef}
    (halive : (w.device d).alive = true) (t : Token) (o : ObjectRef) :
    (w.device d).tokens.entries.find? t = some o ↔ w.Carries d o t := by
  rw [h.find?_iff_live halive]
  exact ⟨fun ⟨hlive, hhome, htoken⟩ => ⟨halive, hlive, hhome, htoken⟩,
    fun h => ⟨h.live, h.home, h.token⟩⟩

/-- At a living device whoever has a token lives. -/
theorem TokensSound.carries_iff (h : w.TokensSound) {d : DeviceRef}
    (halive : (w.device d).alive = true) (o : ObjectRef) (t : Token) :
    w.Carries d o t ↔ (w.object o).home = d ∧ (w.object o).token = some t := by
  rw [← h.find?_iff_carries halive, h.find?_iff d t o halive]

/-! ### Giving -/

theorem createToken_of_token {d : DeviceRef} {o : ObjectRef} {t : Token}
    (htoken : (w.object o).token = some t) : w.createToken d o = (w, .ok t) := by
  unfold createToken
  dsimp only
  rw [htoken]

/-- An object gets a token unless it has one. -/
theorem of_createToken_ok {d : DeviceRef} {o : ObjectRef} {t : Token}
    (hcreate : w.createToken d o = (w', .ok t)) :
    (w.object o).token = some t ∧ w' = w ∨
      (w.object o).token = none ∧ ∃ tokens',
        (w.device d).tokens.issue o (w.object o).id w.memory = (tokens', .ok t) ∧
        w' = ((w.setTokens d tokens').setToken o (some t)).note (.tokenCreated t) := by
  unfold createToken at hcreate
  dsimp only at hcreate
  split at hcreate
  · next htoken =>
    cases hcreate
    exact Or.inl ⟨htoken, rfl⟩
  · next htoken =>
    split at hcreate
    · next tokens' t' hissue =>
      cases hcreate
      exact Or.inr ⟨htoken, tokens', hissue, rfl⟩
    · next tokens' failed hfailed hissue =>
      cases hcreate
      exact absurd rfl (hfailed _)

/-- A refusal of a token leaves a world that nobody can tell from the one before, and nothing
breaks. -/
theorem of_createToken_failed {d : DeviceRef} {o : ObjectRef} {failed : Outcome RequestError Token}
    (hwf : (w.device d).tokens.WellFormed) (hcreate : w.createToken d o = (w', failed))
    (hfailed : ∀ t, failed ≠ .ok t) : w.Restores w' ∧ ∀ f, failed ≠ .fault f := by
  unfold createToken at hcreate
  dsimp only at hcreate
  split at hcreate
  · cases hcreate
    exact absurd rfl (hfailed _)
  · split at hcreate
    · cases hcreate
      exact absurd rfl (hfailed _)
    · next tokens' failed' _ hissue =>
      cases hcreate
      obtain ⟨halike, hunbroken⟩ := hwf.of_issue_failed hissue hfailed
      exact ⟨(Restores.setTokens halike).trans (.noteAll _ _), hunbroken⟩

theorem retokens_of_create {o : ObjectRef} (hlt : o < w.objects.size)
    (halive : (w.device (w.object o).home).alive = true) (tokens' : TokenTable) (t : Token) :
    w.Retokens ((w.setTokens (w.object o).home tokens').setToken o (some t)) o tokens'
      (some t) := by
  refine ⟨fun p => ?_, fun e => ?_, rfl, by simp [setToken, setTokens],
    by simp [setToken, setTokens]⟩
  · simp only [setToken, setTokens, object_updateObject, objects_updateDevice,
      object_updateDevice, hlt, and_true]
  · simp only [setToken, setTokens, device_updateObject, device_updateDevice,
      lt_size_of_alive halive, and_true]

theorem Sound.createToken (h : w.Sound outside uses) {d : DeviceRef} {o : ObjectRef}
    (hlive : 0 < (w.object o).refs) (hhome : (w.object o).home = d)
    (halive : (w.device d).alive = true) :
    (w.createToken d o).1.Sound outside uses ∧ w.Keeps (w.createToken d o).1 ∧
      ∀ f, (w.createToken d o).2 ≠ .fault f := by
  subst hhome
  rcases hcreate : w.createToken (w.object o).home o with ⟨w', outcome⟩
  by_cases hok : ∃ t, outcome = .ok t
  · obtain ⟨t, rfl⟩ := hok
    refine and_assoc.mp ⟨?_, nofun⟩
    obtain ⟨-, rfl⟩ | ⟨hnone, tokens', hissue, rfl⟩ := of_createToken_ok hcreate
    · exact ⟨h, .refl w'⟩
    obtain ⟨hwf, hfree, hfind⟩ := (h.tokens.wellFormed _ halive).of_issue hissue
    have hretokens := retokens_of_create (lt_size_of_refs hlive) halive tokens' t
    have hagree := hretokens.tokensAgree h.tokens.toTokensAgree halive hwf <|
      (h.tokens.leads halive).enter rfl hnone hfree hfind fun _ => rfl
    refine ⟨Sound.note _ (hretokens.same.sound h ⟨hagree, fun p hp he => ?_⟩),
      hretokens.same.keeps.note _⟩
    rw [hretokens.same.home_eq, hretokens.same.alive_eq] at he
    rw [hretokens.same.refs_eq]
    rw [hretokens.token_eq] at hp
    split at hp
    · next heq =>
      subst heq
      exact hlive
    · exact h.tokens.live p hp he
  · obtain ⟨hrestores, hunbroken⟩ := of_createToken_failed (h.tokens.wellFormed _ halive) hcreate
      fun t ht => hok ⟨t, ht⟩
    exact ⟨hrestores.sound h, hrestores.keeps, hunbroken⟩

/-! ### Taking away -/

/-- The token of an object of the device can be taken away. -/
theorem TokensAgree.destroyToken (h : w.TokensAgree) {d : DeviceRef} {o : ObjectRef}
    (hhome : (w.object o).home = d) (halive : (w.device d).alive = true) :
    ∃ w', w.destroyToken d o = (w', .ok ()) ∧ w'.TokensAgree ∧ w.SameButTokens w' ∧
      ∀ p, (w'.object p).token = if o = p then none else (w.object p).token := by
  subst hhome
  cases htoken : (w.object o).token with
  | none =>
    refine ⟨w, by simp [World.destroyToken, htoken], h, .refl w, fun p => ?_⟩
    split
    · next hp =>
      subst hp
      exact htoken
    · rfl
  | some t =>
    have hlt : o < w.objects.size := by
      rcases Nat.lt_or_ge o w.objects.size with hlt | hge
      · exact hlt
      · rw [object_of_size_le hge] at htoken
        cases htoken
    have hfind := (h.find?_iff _ t o halive).mpr ⟨rfl, htoken⟩
    obtain ⟨t', entries', hfreed, hrem, hwf, hfind'⟩ := (h.wellFormed _ halive).exists_release hfind
    let w' : World :=
      ((w.setToken o none).setTokens (w.object o).home { t' with entries := entries' }).note
        (.tokenReleased (w.object o).id)
    have hretokens : w.Retokens w' o { t' with entries := entries' } none := by
      refine ⟨fun p => ?_, fun e => ?_, rfl, by simp [w', setToken, setTokens],
        by simp [w', setToken, setTokens]⟩
      · simp only [w', setToken, setTokens, object_note, object_updateDevice, object_updateObject,
          hlt, and_true]
      · simp only [w', setToken, setTokens, device_note, device_updateDevice, device_updateObject,
          devices_updateObject, lt_size_of_alive halive, and_true]
    have hagree := hretokens.tokensAgree h halive hwf <|
      (h.leads halive).leave rfl htoken hfind' fun _ => rfl
    refine ⟨w', ?_, hagree, hretokens.same, hretokens.token_eq⟩
    simp only [World.destroyToken, htoken]
    rw [show (w.setToken o none).device (w.object o).home = w.device (w.object o).home from rfl,
      hfreed]
    dsimp only
    rw [hrem]

theorem Sound.destroyToken (h : w.Sound outside uses) {d : DeviceRef} {o : ObjectRef}
    (hhome : (w.object o).home = d) (halive : (w.device d).alive = true) :
    ∃ w', w.destroyToken d o = (w', .ok ()) ∧ w'.Sound outside uses ∧ w.Keeps w' := by
  obtain ⟨w', heq, hagree, hsame, htoken⟩ := h.tokens.toTokensAgree.destroyToken hhome halive
  refine ⟨w', heq, hsame.sound h ⟨hagree, fun p hp hd => ?_⟩, hsame.keeps⟩
  rw [hsame.home_eq, hsame.alive_eq] at hd
  rw [hsame.refs_eq]
  rw [htoken] at hp
  split at hp
  · cases hp
  · exact h.tokens.live p hp hd

end BufferObjects.World

import BufferObjects.Proofs.Dependable
import BufferObjects.Proofs.World.Handles
import BufferObjects.Proofs.World.Tokens

/-!
What is reported to the log, and what never is. Some notices tell of an assumption of the library's
own that turned out broken; a world is calm if none of them is in its log and every table has its
numbers in order. An operation keeps a world calm as long as the tables it touches agree with the
fields of the objects. What it is refused then is no taken key: there is no id or token left, memory
has no room, or the request was wrong in the first place.
-/

namespace BufferObjects

/-- Whether a notice tells of a broken assumption. -/
def Notice.isAlarm : Notice → Bool
  | chainKey _ | chainBucket _ | chainEntry _ | tableGivenUp _ | idNotInUse _ | handleTaken _
  | nameTaken _ | nameWithoutEntry _ | tokenWithoutEntry _ | unmatchedRelease _ => true
  | _ => false

/-! ### Errors of tables -/

theorem KeyTable.error_of_create {α : Type} {order : UInt32} {room : Bool} {e : TableError}
    (h : create (α := α) order room = .error e) : e = .invalidKeySpace ∨ e = .outOfMemory := by
  unfold create at h
  split at h
  · cases h
    exact Or.inl rfl
  · split at h <;> cases h
    exact Or.inr rfl

theorem NumberedTable.error_of_create {α : Type} {order first : UInt32} {memory : Memory}
    {e : TableError} (h : create (α := α) order first memory = .error e) :
    e = .invalidKeySpace ∨ e = .outOfMemory :=
  KeyTable.error_of_create (of_map_eq_error h)

theorem TokenTable.error_of_create {c : Config} {memory : Memory} {e : TableError}
    (h : create c memory = .error e) : e = .invalidKeySpace ∨ e = .outOfMemory :=
  KeyTable.error_of_create (of_map_eq_error h)

/-- That a table cannot be had is nothing alarming. -/
theorem KeyTable.isAlarm_createReport {order : UInt32} {e : TableError} :
    ∀ n ∈ createReport order e, n.isAlarm = false := by
  unfold createReport
  split
  · exact List.forall_mem_singleton.mpr rfl
  · exact List.forall_mem_nil _

namespace World

variable {w w' : World} {c : ClientRef} {d : DeviceRef} {o : ObjectRef}

/-- Nothing alarming has been reported, and every table has its numbers in order. -/
structure Calm (w : World) : Prop where
  log : ∀ n ∈ w.log, n.isAlarm = false
  handles : ∀ c table, (w.client c).handles = some table → table.ids.Tallied
  names : ∀ d, (w.device d).names.ids.Tallied
  tokens : ∀ d, (w.device d).tokens.source.InOrder

theorem lookupHandle_ne_duplicate {hd : Handle} : w.lookupHandle c hd ≠ .error .duplicateKey := by
  intro hfailed
  cases error_of_lookupHandle hfailed

theorem resolveName_ne_duplicate {n : Name} : w.resolveName d n ≠ .error .duplicateKey := by
  intro hfailed
  cases error_of_resolveName hfailed

theorem resolveToken_ne_duplicate {t : Token} : w.resolveToken d t ≠ .error .duplicateKey := by
  intro hfailed
  cases error_of_resolveToken hfailed

namespace Calm

/-! ### Single updates -/

theorem empty : World.empty.Calm where
  log _ hn := absurd hn List.not_mem_nil
  handles c table hc := by cases hc
  names _ := IdAllocator.Tallied.create 0 0
  tokens _ := IdAllocator.Tallied.create 0 0

/-- Objects do not matter. -/
theorem of_eq (h : w.Calm) (hlog : w'.log = w.log) (hdevices : w'.devices = w.devices)
    (hclients : w'.clients = w.clients) : w'.Calm where
  log := by rw [hlog]; exact h.log
  handles c table hc := h.handles c table (by rwa [client_congr hclients] at hc)
  names d := by rw [device_congr hdevices]; exact h.names d
  tokens d := by rw [device_congr hdevices]; exact h.tokens d

theorem updateObject (h : w.Calm) (o : ObjectRef) (f : BufferObject → BufferObject) :
    (w.updateObject o f).Calm := h.of_eq rfl rfl rfl

theorem note (h : w.Calm) {n : Notice} (hn : n.isAlarm = false) : (w.note n).Calm where
  log := List.forall_mem_cons.mpr ⟨hn, h.log⟩
  handles := h.handles
  names := h.names
  tokens := h.tokens

theorem noteAll (h : w.Calm) {ns : List Notice} (hns : ∀ n ∈ ns, n.isAlarm = false) :
    (w.noteAll ns).Calm := by
  induction ns generalizing w with
  | nil => exact h
  | cons n ns ih =>
    obtain ⟨hn, hrest⟩ := List.forall_mem_cons.mp hns
    exact ih (h.note hn) hrest

theorem updateDevice (h : w.Calm) (d : DeviceRef) {f : Device → Device}
    (hnames : (w.device d).names.ids.Tallied → (f (w.device d)).names.ids.Tallied)
    (htokens : (w.device d).tokens.source.InOrder → (f (w.device d)).tokens.source.InOrder) :
    (w.updateDevice d f).Calm where
  log := h.log
  handles := h.handles
  names e := by
    rw [device_updateDevice]
    split
    · next heq =>
      obtain ⟨rfl, -⟩ := heq
      exact hnames (h.names d)
    · exact h.names e
  tokens e := by
    rw [device_updateDevice]
    split
    · next heq =>
      obtain ⟨rfl, -⟩ := heq
      exact htokens (h.tokens d)
    · exact h.tokens e

theorem setNames (h : w.Calm) (d : DeviceRef) {names : NumberedTable ObjectRef}
    (hnames : names.ids.Tallied) : (w.setNames d names).Calm :=
  h.updateDevice d (fun _ => hnames) id

theorem setTokens (h : w.Calm) (d : DeviceRef) {tokens : TokenTable}
    (htokens : tokens.source.InOrder) : (w.setTokens d tokens).Calm :=
  h.updateDevice d id fun _ => htokens

theorem updateClient (h : w.Calm) (c : ClientRef) {f : Client → Client}
    (hhandles : ∀ table, (f (w.client c)).handles = some table → table.ids.Tallied) :
    (w.updateClient c f).Calm where
  log := h.log
  handles e table he := by
    rw [client_updateClient] at he
    split at he
    · next heq =>
      obtain ⟨rfl, -⟩ := heq
      exact hhandles table he
    · exact h.handles e table he
  names := h.names
  tokens := h.tokens

theorem setHandles (h : w.Calm) (c : ClientRef) {table : HandleTable}
    (htable : table.ids.Tallied) : (w.setHandles c (some table)).Calm :=
  h.updateClient c fun _ heq => Option.some.inj heq ▸ htable

/-! ### Looking up -/

theorem objectAtAddress (h : w.Calm) (d : DeviceRef) (a : UInt64) :
    (w.objectAtAddress d a).1.Calm ∧ (w.objectAtAddress d a).2 ≠ .error .duplicateKey := by
  constructor
  · unfold World.objectAtAddress
    split
    · split
      · exact h
      · exact h.note rfl
    · exact h
  · intro hfailed
    cases error_of_objectAtAddress hfailed

theorem mappingAt (h : w.Calm) (d : DeviceRef) (a length : UInt64) :
    (w.mappingAt d a length).1.Calm ∧ (w.mappingAt d a length).2 ≠ .error .duplicateKey := by
  constructor
  · have hcalm := (h.objectAtAddress d a).1
    unfold World.mappingAt
    split
    · next hobject => rwa [hobject] at hcalm
    · next hobject =>
      rw [hobject] at hcalm
      dsimp only
      split
      · exact hcalm
      · exact hcalm.note rfl
  · intro hfailed
    rcases error_of_mappingAt hfailed with heq | heq <;> cases heq

/-! ### Coming and going -/

theorem pushDevice (h : w.Calm) {x : Device} (hnames : x.names.ids.Tallied)
    (htokens : x.tokens.source.InOrder) : ({ w with devices := w.devices.push x } : World).Calm where
  log := h.log
  handles := h.handles
  names e := by
    rw [device_pushDevice]
    split
    · exact hnames
    · exact h.names e
  tokens e := by
    rw [device_pushDevice]
    split
    · exact htokens
    · exact h.tokens e

theorem pushClient (h : w.Calm) {x : Client}
    (hhandles : ∀ table, x.handles = some table → table.ids.Tallied) :
    ({ w with clients := w.clients.push x } : World).Calm where
  log := h.log
  handles e table he := by
    rw [client_pushClient] at he
    split at he
    · exact hhandles table he
    · exact h.handles e table he
  names := h.names
  tokens := h.tokens

theorem newDevice (h : w.Calm) (config : Config) (features : Features) :
    (w.newDevice config features).1.Calm ∧
      (w.newDevice config features).2 ≠ .error .duplicateKey := by
  unfold World.newDevice
  split
  · exact ⟨h.note rfl, nofun⟩
  · next hsane =>
    split
    · next names tokens hnames htokens =>
      refine ⟨(h.pushDevice ?_ ?_).note rfl, nofun⟩
      · exact NumberedTable.tallied_of_create hnames
      · exact TokenTable.inOrder_of_create hsane htokens
    · next e hfailed =>
      refine ⟨h.noteAll KeyTable.isAlarm_createReport, ?_⟩
      rcases NumberedTable.error_of_create hfailed with rfl | rfl <;> nofun
    · next e hfailed _ =>
      refine ⟨h.noteAll KeyTable.isAlarm_createReport, ?_⟩
      rcases TokenTable.error_of_create hfailed with rfl | rfl <;> nofun

theorem newClient (h : w.Calm) (d : DeviceRef) :
    (w.newClient d).1.Calm ∧ (w.newClient d).2 ≠ .error .duplicateKey := by
  unfold World.newClient
  split
  · exact ⟨h, nofun⟩
  · dsimp only
    generalize hw₁ : (w.updateDevice d _).note _ = w₁
    have h₁ : w₁.Calm := by
      rw [← hw₁]
      exact note (h.updateDevice d id id) rfl
    split
    · next e hfailed =>
      refine ⟨h₁.noteAll KeyTable.isAlarm_createReport, ?_⟩
      rcases NumberedTable.error_of_create hfailed with rfl | rfl <;> nofun
    · next table htable =>
      refine ⟨h₁.pushClient ?_, nofun⟩
      rintro _ ⟨⟩
      exact NumberedTable.tallied_of_create htable

theorem newObject (h : w.Calm) (d : DeviceRef) (size : UInt64) :
    (w.newObject d size).1.Calm ∧ (w.newObject d size).2 ≠ .error .duplicateKey := by
  unfold World.newObject
  split
  · exact ⟨h, nofun⟩
  · split
    · exact ⟨h.note rfl, nofun⟩
    · dsimp only
      generalize hw₁ : w.updateDevice d _ = w₁
      have h₁ : w₁.Calm := by
        rw [← hw₁]
        exact h.updateDevice d id id
      exact ⟨h₁.of_eq rfl rfl rfl, nofun⟩

theorem leaveDevice (h : w.Calm) (d : DeviceRef) : (w.leaveDevice d).1.Calm := by
  unfold World.leaveDevice
  split
  · exact h.updateDevice d id id
  · exact h

/-- A table is given up with nothing in it: all its entries have been handed over. -/
theorem closeClient (h : w.Calm) (c : ClientRef) : (w.closeClient c).1.Calm := by
  unfold World.closeClient
  split
  · exact h
  · next table _ =>
    have hnone : table.entries.drain.2.leftovers = [] := rfl
    dsimp only
    rw [hnone]
    refine note (h.updateClient c fun table htable => ?_) rfl
    cases htable

/-! ### Handles -/

theorem openHandle (h : w.Calm) (htables : w.TablesSound) (c : ClientRef) (o : ObjectRef) :
    (w.openHandle c o).1.Calm ∧ (w.openHandle c o).2 ≠ .error .duplicateKey := by
  unfold World.openHandle
  dsimp only
  split
  · exact ⟨h.note rfl, nofun⟩
  · split
    · exact ⟨h, nofun⟩
    · next table htable =>
      have htallied := h.handles c table htable
      split
      · next table' hd hissue =>
        have hissued := h.setHandles c (NumberedTable.tallied_of_issue htallied hissue)
        exact ⟨(hissued.updateObject o _).updateObject o _, nofun⟩
      · next table' e hissue =>
        have halike := (htables c table htable).of_issue_error hissue
        obtain ⟨cause, hcause, hwhy, hsilent⟩ := (htables c table htable).outcome_of_issue_error hissue
        rw [hcause, hsilent]
        refine ⟨h.setHandles c (htallied.of_alike halike.ids), ?_⟩
        rcases hwhy with rfl | rfl <;> nofun

theorem takeHandle (h : w.Calm) (htables : w.TablesSound) (c : ClientRef) (hd : Handle) :
    (w.takeHandle c hd).1.Calm := by
  unfold World.takeHandle
  split
  · exact h
  · next table htable =>
    split
    · exact h
    · next o table' freed hwith =>
      obtain ⟨rfl, -⟩ := (htables c table htable).of_withdraw hwith
      exact h.setHandles c (NumberedTable.tallied_of_withdraw (h.handles c table htable) hwith)

/-! ### Names -/

theorem publishName (h : w.Calm) (hwf : (w.device d).names.WellFormed firstName) (o : ObjectRef) :
    (w.publishName d o).1.Calm ∧ (w.publishName d o).2 ≠ .error .duplicateKey := by
  have htallied := h.names d
  unfold World.publishName
  dsimp only
  split
  · exact ⟨h.note rfl, nofun⟩
  · split
    · exact ⟨h, nofun⟩
    · split
      · next names' n hissue =>
        have hissued := h.setNames d (NumberedTable.tallied_of_issue htallied hissue)
        exact ⟨note ((hissued.updateObject o _).updateObject o _) rfl, nofun⟩
      · next names' e hissue =>
        have halike := hwf.of_issue_error hissue
        obtain ⟨cause, hcause, hwhy, hsilent⟩ := hwf.outcome_of_issue_error hissue
        rw [hcause, hsilent]
        refine ⟨h.setNames d (htallied.of_alike halike.ids), ?_⟩
        rcases hwhy with rfl | rfl <;> nofun

/-- The name of an object is in the table of its device: its id is in use, and it has an entry. -/
theorem retireName (h : w.Calm) (hnames : w.NamesSound) (hhome : (w.object o).home = d) :
    (w.retireName d o).1.Calm := by
  subst hhome
  unfold World.retireName
  split
  · exact h
  · next n hname =>
    have halive := hnames.alive o (by rw [hname]; rfl)
    have hfind := (hnames.find?_iff _ n o halive).mpr ⟨rfl, hname⟩
    obtain ⟨entries', ids', hrem, hfree, -⟩ := (hnames.wellFormed _ halive).exists_parts hfind
    have hset : ((w.setName o none).setNames (w.object o).home ⟨entries', ids'⟩).Calm :=
      setNames (h.updateObject o _) _ ((h.names _).of_free hfree)
    dsimp only
    rw [show (w.setName o none).device (w.object o).home = w.device (w.object o).home from rfl,
      hfree]
    dsimp only
    rw [hrem]
    dsimp only
    split
    · exact updateObject (hset.note rfl) _ _
    · exact hset

/-! ### Tokens -/

theorem createToken (h : w.Calm) (hwf : (w.device d).tokens.WellFormed) (o : ObjectRef) :
    (w.createToken d o).1.Calm ∧ (w.createToken d o).2 ≠ .error .duplicateKey := by
  have horder := h.tokens d
  unfold World.createToken
  dsimp only
  split
  · exact ⟨h, nofun⟩
  · split
    · next tokens' t hissue =>
      have hissued := h.setTokens d (TokenTable.inOrder_of_issue horder hissue)
      exact ⟨note (hissued.updateObject o _) rfl, nofun⟩
    · next tokens' failed hfailed hissue =>
      have hissuing := hwf.issuing horder o (w.object o).id w.memory
      rw [hissue] at hissuing
      cases hissuing with
      | filed => exact absurd rfl (hfailed _)
      | exhausted =>
        refine ⟨(h.setTokens d horder).noteAll fun n hn => ?_, nofun⟩
        dsimp only [TokenTable.issueReport] at hn
        split at hn
        · cases hn
        · obtain rfl := List.mem_singleton.mp hn
          rfl
      | noRoom _ alike => exact ⟨h.setTokens d (horder.of_alike alike.source), nofun⟩

/-- The token of an object is in the table of its device: if it is an id, that id is in use, and it
has an entry. -/
theorem destroyToken (h : w.Calm) (htokens : w.TokensAgree) (hhome : (w.object o).home = d)
    (halive : (w.device d).alive = true) : (w.destroyToken d o).1.Calm := by
  subst hhome
  unfold World.destroyToken
  dsimp only
  split
  · exact h
  · next t htoken =>
    have hfind := (htokens.find?_iff _ t o halive).mpr ⟨rfl, htoken⟩
    obtain ⟨t', entries', hfree, hrem, -⟩ :=
      (htokens.wellFormed _ halive).exists_release hfind
    have horder := TokenTable.inOrder_of_freeId (h.tokens _) hfree
    have hset : ((w.setToken o none).setTokens (w.object o).home
        { t' with entries := entries' }).Calm := setTokens (h.updateObject o _) _ horder
    rw [show (w.setToken o none).device (w.object o).home = w.device (w.object o).home from rfl,
      hfree]
    dsimp only
    rw [hrem]
    exact hset.note rfl

/-! ### References -/

theorem endObject (h : w.Calm) (htokens : w.TokensAgree) (o : ObjectRef) :
    (w.endObject o).1.Calm := by
  have hdying : (w.note (.objectDying (w.object o).id)).Calm := h.note rfl
  have hagree : (w.note (.objectDying (w.object o).id)).TokensAgree :=
    htokens.frame (Nat.le_refl _) (fun _ => ⟨rfl, rfl⟩) (fun _ => rfl) fun _ _ => rfl
  unfold World.endObject
  dsimp only
  generalize hreleased : (if ((w.note (.objectDying (w.object o).id)).device
    (w.object o).home).alive = true then _ else (_ : World × Except Fault Unit)) = released
  have hcalm : released.1.Calm := by
    rw [← hreleased]
    split
    · next halive => exact hdying.destroyToken hagree rfl halive
    · exact hdying
  split
  · exact hcalm
  · split
    · exact hcalm
    · exact hcalm.note rfl

theorem dropRef (h : w.Calm) (htokens : w.TokensAgree) (o : ObjectRef) : (w.dropRef o).1.Calm := by
  have hless : (w.updateObject o fun x => { x with refs := x.refs - 1 }).Calm :=
    h.updateObject o _
  have hsame : w.SameButCounts (w.updateObject o fun x => { x with refs := x.refs - 1 }) :=
    .updateObject w o fun _ => ⟨_, _, _, rfl⟩
  unfold World.dropRef
  dsimp only
  split
  · exact hless.endObject (hsame.tokensAgree htokens) o
  · exact hless

end Calm

end World

end BufferObjects

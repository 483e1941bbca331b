import OpenvoxCa.Ca.Alone
import OpenvoxCa.Ca.Conservation

/-!
# What a cleanup pass takes away

`CleanupExpiredCerts` prunes the inventory entry by entry, and then undoes what the entries it
removed stand for: their serials leave the OCSP index and the CRL. An entry and a serial are not the
same thing. An inventory may have a serial on several entries – it was imported so, or one of them
is written with a leading zero – and they expire at different times. The pass that removes the first
of them takes the revocation of the others with it (`cleanup_unrevokes`).

`cleanup_spares_live_iff` says that there is no other way: a pass at a given time over a given
inventory, whatever else is in storage and whatever fails on the way, spares every serial that a
surviving entry bears if and only if no expired entry shares its serial with another one, also one
that looks the same (`Unshared`).
-/

namespace OpenvoxCa.Ca

open Conc

variable {ca : CA} {cert : Certificate} {t : Tid} {s s' s₁ : State}
  {es : List (Exchange interface)} {n : ℤ}

/-! ### What is to survive -/

/-- The OCSP index of a replica knows the serial. -/
def State.Indexed (s : State) (i : Replica) (n : ℤ) : Prop :=
  ∃ e ∈ (s.memory i).serialIndex, e.1 = serialHexStr n

/-- **What the surviving entries stand for has survived with them**: the serial of an entry
that is still there is on the CRL if it was, and known to the index if it was. -/
def LiveKept (cert : Certificate) (s s' : State) : Prop :=
  ∀ e ∈ s'.inventory, ∀ n, setString16 e.serial = some n →
    (n ∈ s.listed cert → n ∈ s'.listed cert) ∧ ∀ i, s.Indexed i n → s'.Indexed i n

/-- **No expired entry shares its serial**, as a number, with an entry at another position, be the
two alike or not. -/
def Unshared (inventory : List InventoryEntry) (cutoff : Time) : Prop :=
  ∀ (i j : ℕ) e e', inventory[i]? = some e → inventory[j]? = some e' → i ≠ j →
    keepEntry cutoff e = false → ∀ n, setString16 e.serial = some n →
      setString16 e'.serial ≠ some n

/-! ### The steps of a pass -/

/-- The states agree in what a cleanup is judged by. -/
structure SameBooks (s s' : State) : Prop where
  crl : s'.crl = s.crl
  inventory : s'.inventory = s.inventory
  memory : s'.memory = s.memory

theorem SameBooks.refl (s : State) : SameBooks s s := ⟨rfl, rfl, rfl⟩

theorem SameBooks.trans (h : SameBooks s s₁) (h' : SameBooks s₁ s') : SameBooks s s' :=
  ⟨h'.crl.trans h.crl, h'.inventory.trans h.inventory, h'.memory.trans h.memory⟩

/-- The commands that leave them alone: reads, and the deletion of a certificate. -/
def Cmd.SparesBooks : Cmd → Prop
  | .deleteCert _ => True
  | c => c.Reads

theorem solo_sameBooks {α : Type} {p : Prog α} {r : Except Failure α}
    (h : Solo machine t s p es r s') (hp : p.Only Cmd.SparesBooks) : SameBooks s s' := by
  refine h.keeps (P := SameBooks s) (fun {c _ _ _ _} hc hex hs => hs.trans ?_) hp (.refl s)
  cases exec_effect hex <;> first | exact ⟨rfl, rfl, rfl⟩ | exact hc.elim

variable {r : Except Failure Unit}

theorem solo_modifyMemory {f : Memory → Memory} (h : Solo machine t s (modifyMemory f) es r s') :
    s' = { s with memory := Function.update s.memory t.replica (f (s.memory t.replica)) } := by
  obtain ⟨ch, m, s₁, es₁, hex, hset, -⟩ := solo_cmd_bind h
  simp only [exec] at hex
  split at hex
  · cases hex
    obtain ⟨_, _, s₂, _, hex', hret, -⟩ := Solo.call_inv hset
    obtain ⟨-, -, rfl⟩ := Solo.ret_inv hret
    exact (Prod.mk.inj (Option.some.inj hex')).2.symm
  · cases hex

/-- A change of the memory leaves the index alone. -/
theorem indexed_of_modifyMemory {f : Memory → Memory} (hf : ∀ m, (f m).serialIndex = m.serialIndex)
    (h : Solo machine t s (modifyMemory f) es r s') (i : Replica) :
    (s'.memory i).serialIndex = (s.memory i).serialIndex := by
  rw [solo_modifyMemory h]
  by_cases hi : i = t.replica
  · subst hi
    simp [hf]
  · simp [hi]

theorem serialIndex_evictAll (keys : List Text) (m : Memory) :
    (keys.foldl Memory.evictOCSP m).serialIndex = m.serialIndex := by
  induction keys generalizing m with
  | nil => rfl
  | cons key keys ih => exact ih _

theorem mem_unindexAll {keys : List Text} {m : Memory} {e : Text × Text} :
    e ∈ (keys.foldl Memory.unindex m).serialIndex ↔ e ∈ m.serialIndex ∧ e.1 ∉ keys := by
  induction keys generalizing m with
  | nil => simp
  | cons key keys ih =>
    rw [List.foldl_cons, ih]
    simp only [Memory.unindex, Memory.evictOCSP, List.mem_filter, decide_eq_true_eq,
      List.mem_cons, not_or, and_assoc]

theorem solo_readStoredCRL {r : Except Failure StoredCRL}
    (h : Solo machine t s (readStoredCRL ca) es r s') :
    SameBooks s s' ∧ ∀ stored, r = .ok stored → ReadOf ca.caCert s.crl stored := by
  obtain ⟨ch, a, s₁, es₁, hex, h, rfl⟩ := Solo.call_inv h
  cases hex
  cases hread : readOutcome ch s.crl with
  | error e =>
    rw [hread] at h
    obtain ⟨-, rfl, rfl⟩ := Solo.fail_inv h
    exact ⟨⟨rfl, rfl, rfl⟩, by simp⟩
  | ok blob =>
    rw [hread] at h
    obtain ⟨-, rfl, rfl⟩ := Solo.ofExcept_inv h
    refine ⟨⟨rfl, rfl, rfl⟩, fun stored hstored => ?_⟩
    obtain ⟨rfl, hown⟩ := parseStored_eq_ok hstored
    exact ⟨readOutcome_eq_ok hread, hown⟩

theorem solo_updateCRL {chain : Blob} (h : Solo machine t s (ask (cmd (.updateCRL chain))) es r s')
    : s' = s ∨ s' = s.setCRL t chain := by
  obtain ⟨ch, a, s₁, es₁, hex, hret, -⟩ := solo_cmd_bind h
  obtain ⟨-, -, rfl⟩ := Solo.ofExcept_inv hret
  exact writeOutcome_cases hex

theorem Cmd.Reads.sparesBooks {c : Cmd} (h : c.Reads) : c.SparesBooks := by
  cases c <;> first | exact h | trivial

/-- Signing a successor of a list of ours: nothing is written, or a list with the entries. -/
theorem solo_signCRLLocked {stored : StoredCRL} {revoked : List RevocationEntry}
    (hread : ReadOf ca.caCert s.crl stored)
    (h : Solo machine t s (signCRLLocked ca stored revoked) es r s') :
    (s'.crl = s.crl ∨ listedIn ca.caCert s'.crl = revoked.map RevocationEntry.serialNumber) ∧
      ∀ i, (s'.memory i).serialIndex = (s.memory i).serialIndex := by
  obtain ⟨ch, now, s₁, _, hex, h₁, -⟩ := solo_cmd_bind h
  cases hex
  rcases h₁.bind_inv with ⟨e, hsign, -⟩ | ⟨crl, s₁, _, _, hsign, h₂, -⟩
  · obtain ⟨rfl, -⟩ := solo_createRevocationList hsign
    exact ⟨Or.inl rfl, fun _ => rfl⟩
  obtain ⟨rfl, hcrl⟩ := solo_createRevocationList hsign
  obtain ⟨-, hentries, hsigned⟩ := hcrl crl rfl
  have hchain := crlChainLocked_always ca crl stored.blob
  have htime : SameBooks s (s.noteTime t ch.time) := ⟨rfl, rfl, rfl⟩
  have hsame : ∀ {es r s'}, Solo machine t (s.noteTime t ch.time)
      (crlChainLocked ca crl stored.blob) es r s' → SameBooks s s' := fun h =>
    htime.trans (solo_sameBooks h (Prog.always_mono
      (Prog.always_imp hchain fun _ => Cmd.Reads.sparesBooks) fun _ _ => trivial))
  rcases h₂.bind_inv with ⟨e, hgather, -⟩ | ⟨chain, s₂, _, _, hgather, h₃, -⟩
  · exact ⟨Or.inl (hsame hgather).crl, fun i => by rw [(hsame hgather).memory]⟩
  obtain ⟨ancestors, rfl, hforeign⟩ := (hgather.always hchain).1 chain rfl
  have hbooks := hsame hgather
  have hown := hread.signs hsigned
  -- The write fails and changes nothing, or it leaves a chain led by the new list.
  have hwrite : ∀ {es r s'}, Solo machine t s₂ (ask (cmd (.updateCRL (encodeCRLChain
      (crl :: ancestors))))) es r s' → (s'.crl = s.crl ∨
      listedIn ca.caCert s'.crl = revoked.map RevocationEntry.serialNumber) ∧
      s'.memory = s.memory := by
    intro es r s' h
    rcases solo_updateCRL h with rfl | rfl
    · exact ⟨Or.inl hbooks.crl, hbooks.memory⟩
    · refine ⟨Or.inr ?_, hbooks.memory⟩
      change listedIn ca.caCert (some (encodeCRLChain (crl :: ancestors))) = _
      rw [listedIn_of_storedOwn (storedOwn_encode hown hforeign), RevocationList.serials, hentries]
      rfl
  rcases h₃.bind_inv with ⟨e, hfail, -⟩ | ⟨_, s₃, _, _, hok, hmem, -⟩
  · exact ⟨(hwrite hfail).1, fun i => by rw [(hwrite hfail).2]⟩
  · refine ⟨?_, fun i => ?_⟩
    · rw [solo_modifyMemory hmem]
      exact (hwrite hok).1
    · have hindex (m : Memory) : (m.install crl).serialIndex = m.serialIndex :=
        serialIndex_evictAll _ _
      rw [indexed_of_modifyMemory hindex hmem, (hwrite hok).2]

/-- **Dropping entries from the CRL** takes the serials named off it, and no other. -/
theorem solo_dropCRLEntriesLocked {removed : List Text}
    (h : Solo machine t s (dropCRLEntriesLocked ca removed) es r s') :
    (∀ n ∈ s.listed ca.caCert, serialHexStr n ∉ removed → n ∈ s'.listed ca.caCert) ∧
      ∀ i, (s'.memory i).serialIndex = (s.memory i).serialIndex := by
  rcases h.bind_inv with ⟨e, hread, -⟩ | ⟨stored, s₁, _, _, hread, h₁, -⟩
  · obtain ⟨hsame, -⟩ := solo_readStoredCRL hread
    exact ⟨fun n hn _ => by rwa [State.listed, hsame.crl], fun i => by rw [hsame.memory]⟩
  obtain ⟨hsame, hstored⟩ := solo_readStoredCRL hread
  have hown := hstored stored rfl
  simp only at h₁
  split at h₁
  · obtain ⟨-, -, rfl⟩ := Solo.ret_inv h₁
    exact ⟨fun n hn _ => by rwa [State.listed, hsame.crl], fun i => by rw [hsame.memory]⟩
  · obtain ⟨hcrl, hindex⟩ := solo_signCRLLocked (by rwa [hsame.crl]) h₁
    refine ⟨fun n hn hnot => ?_, fun i => by rw [hindex, hsame.memory]⟩
    rcases hcrl with hcrl | hcrl
    · rwa [State.listed, hcrl, hsame.crl]
    · rw [State.listed, hcrl]
      rw [State.listed, hown.listedIn] at hn
      obtain ⟨e, he, rfl⟩ := List.mem_map.mp hn
      exact List.mem_map_of_mem (List.mem_filter.mpr ⟨he, by simpa using hnot⟩)

theorem deleteStoredCertIfSerialMatches_always (subject serial : Text) :
    (deleteStoredCertIfSerialMatches subject serial).Always Cmd.SparesBooks fun r =>
      r = .ok () := by
  refine always_cmd_bind trivial fun a => ?_
  cases a with
  | error _ => rfl
  | ok blob =>
    simp only
    split
    · split
      · exact always_cmd_bind trivial fun _ => rfl
      · rfl
    · rfl

/-- Deleting certificates cannot fail the pass. -/
theorem deleteStoredCerts_always (dropped : List InventoryEntry) :
    (deleteStoredCerts dropped).Always Cmd.SparesBooks fun r => r = .ok () := by
  induction dropped with
  | nil => rfl
  | cons e rest ih =>
    refine Prog.always_bind (Prog.always_mono (deleteStoredCertIfSerialMatches_always _ _) ?_)
    rintro _ rfl
    exact ih

theorem mem_entrySerials {entries : List InventoryEntry} :
    n ∈ entrySerials entries ↔ ∃ e ∈ entries, setString16 e.serial = some n := by
  simp [entrySerials]

/-- **What a pass did**: it pruned expired entries, those that survive stood at other positions, and
it took away serials of the pruned entries only. -/
structure Pruning (cert : Certificate) (cutoff : Time) (pruned : List InventoryEntry)
    (s s' : State) : Prop where
  expired : ∀ e ∈ pruned, keepEntry cutoff e = false
  apart : ∀ e ∈ pruned, ∀ e' ∈ s'.inventory,
    ∃ i j : ℕ, i ≠ j ∧ s.inventory[i]? = some e ∧ s.inventory[j]? = some e'
  listed : ∀ n ∈ s.listed cert, n ∉ entrySerials pruned → n ∈ s'.listed cert
  indexed : ∀ i n, s.Indexed i n → n ∉ entrySerials pruned → s'.Indexed i n

theorem Pruning.none (cutoff : Time) (h : SameBooks s s') : Pruning cert cutoff [] s s' := by
  refine ⟨by simp, by simp, fun n hn _ => ?_, fun i n hi _ => ?_⟩
  · rwa [State.listed, h.crl]
  · rwa [State.Indexed, h.memory]

theorem solo_cleanupLocked {cutoff : Time} {r : Except Failure (ℕ × Option Failure)}
    (h : Solo machine t s (cleanupLocked ca cutoff) es r s') :
    ∃ pruned, Pruning ca.caCert cutoff pruned s s' := by
  obtain ⟨ch, a, s₁, _, hex, h₁, -⟩ := solo_cmd_bind h
  cases hex
  have hexpired : ∀ e ∈ prunedEntries s.inventory (keepEntry cutoff) ch,
      keepEntry cutoff e = false := fun e he => (rejected_of_mem_prunedEntries he).2
  have hapart : ∀ e ∈ prunedEntries s.inventory (keepEntry cutoff) ch,
      ∀ e' ∈ keptEntries s.inventory (keepEntry cutoff) ch,
        ∃ i j : ℕ, i ≠ j ∧ s.inventory[i]? = some e ∧ s.inventory[j]? = some e' :=
    fun _ he _ he' => Data.apart_of_mem_retainAt he he'
  refine ⟨prunedEntries s.inventory (keepEntry cutoff) ch, ?_⟩
  simp only at h₁
  split at h₁
  · obtain ⟨-, -, rfl⟩ := Solo.ret_inv h₁
    exact ⟨hexpired, hapart, fun n hn _ => hn, fun i n hi _ => hi⟩
  rcases h₁.bind_inv with ⟨e, hmem, -⟩ | ⟨_, s₂, _, _, hmem, h₂, -⟩
  · cases (hmem.always (modifyMemory_always _)).1
  obtain ⟨r', s₃, _, _, hdrop, h₃, -⟩ := h₂.attempt_bind_inv
  rcases h₃.bind_inv with ⟨e, hdelete, -⟩ | ⟨_, s₄, _, _, hdelete, hret, -⟩
  · cases (hdelete.always (deleteStoredCerts_always _)).1
  obtain ⟨-, -, rfl⟩ := Solo.ret_inv hret
  -- Deleting stored certificates touches neither CRL nor index; both were settled before.
  have hsame := solo_sameBooks hdelete
    (Prog.always_mono (deleteStoredCerts_always _) fun _ _ => trivial)
  have hcerts := solo_sameCerts hdrop (sparesCerts_dropCRLEntriesLocked _)
  obtain ⟨hlisted, hindex⟩ := solo_dropCRLEntriesLocked hdrop
  rw [solo_modifyMemory hmem] at hcerts hlisted hindex
  refine ⟨hexpired, ?_, fun n hn hnot => ?_, fun i n hi hnot => ?_⟩
  · rw [hsame.inventory.trans hcerts.inventory]
    exact hapart
  · rw [State.listed, hsame.crl]
    exact hlisted n hn (by simpa using hnot)
  · obtain ⟨e, he, hen⟩ := hi
    refine ⟨e, ?_, hen⟩
    rw [hsame.memory, hindex]
    by_cases hr : i = t.replica
    · subst hr
      simp only [Function.update_self]
      exact mem_unindexAll.mpr ⟨he, by simpa [hen] using hnot⟩
    · simpa [hr] using he

theorem solo_cleanupExpiredCerts {retain : Duration} {now : Time}
    {r : Except Failure (ℕ × Option Failure)}
    (h : Solo machine t s (cleanupExpiredCerts ca retain) (⟨.now, now⟩ :: es) r s') :
    ∃ pruned, Pruning ca.caCert (now - max retain 0) pruned s s' := by
  obtain ⟨ch, a, s₁, _, hex, h₁, hes⟩ := solo_cmd_bind h
  cases hex
  obtain rfl : now = ch.time := by simpa using (List.cons.inj hes).1
  obtain ⟨r', s₂, _, _, hlocked, hret, -⟩ := h₁.attempt_bind_inv
  obtain rfl : s' = s₂ := by
    cases r' <;> exact (Solo.ret_inv hret).2.2
  obtain ⟨-, rfl, -⟩ | ⟨s₃, _, hbody, rfl, -⟩ := solo_withLock hlocked
  · exact ⟨[], .none _ ⟨rfl, rfl, rfl⟩⟩
  obtain ⟨s₄, _, hclean, rfl, -⟩ := solo_withMutex hbody
  obtain ⟨pruned, hp⟩ := solo_cleanupLocked hclean
  exact ⟨pruned, hp.expired, hp.apart, hp.listed, hp.indexed⟩

/-- A pass over an inventory in which no expired entry shares its serial. -/
theorem Pruning.liveKept {cutoff : Time} {pruned : List InventoryEntry}
    (h : Pruning cert cutoff pruned s s') (hinv : Unshared s.inventory cutoff) :
    LiveKept cert s s' := by
  intro e he n hn
  have hspared : n ∉ entrySerials pruned := by
    intro hn'
    obtain ⟨e', he', hn'⟩ := mem_entrySerials.mp hn'
    obtain ⟨i, j, hne, hi, hj⟩ := h.apart e' he' e he
    exact hinv i j e' e hi hj hne (h.expired e' he') n hn' hn
  exact ⟨fun hl => h.listed n hl hspared, fun i hi => h.indexed i n hi hspared⟩

/-! ### A pass that takes too much -/

theorem canRun_deleteStoredCerts (hcerts : ∀ subject, s.certs subject = none)
    (dropped : List InventoryEntry) :
    CanRun machine t s (deleteStoredCerts dropped) (.ok ()) s := by
  induction dropped with
  | nil => exact .ret
  | cons e rest ih =>
    have hget : exec t s (.getCert e.subject) {} = some (.error .notExist, s) := by
      simp [exec, readOutcome, hcerts]
    exact ((CanRun.cmd (M := machine) ({} : Choice) hget).bind .ret).bind ih

theorem canRun_modifyMemory {f : Memory → Memory} (hmutex : s.mutex t.replica = some t) :
    CanRun machine t s (modifyMemory f) (.ok ())
      { s with memory := Function.update s.memory t.replica (f (s.memory t.replica)) } := by
  have hget : exec t s .getMemory {} = some (s.memory t.replica, s) := by simp [exec, hmutex]
  have hset : exec t s (.setMemory (f (s.memory t.replica))) {} = some ((),
      { s with memory := Function.update s.memory t.replica (f (s.memory t.replica)) }) := rfl
  exact (CanRun.cmd (M := machine) ({} : Choice) hget).bind
    (CanRun.cmd (M := machine) ({} : Choice) hset)

/-- A pass where neither a CRL nor a certificate is stored goes through to its end, whatever
the prune gets to remove. -/
theorem canRun_cleanupLocked (ca : CA) {cutoff : Time} (ch : Choice) (hcrl : s.crl = none)
    (hcerts : ∀ subject, s.certs subject = none) (hmutex : s.mutex t.replica = some t)
    (hpruned : prunedEntries s.inventory (keepEntry cutoff) ch ≠ []) :
    ∃ r s', CanRun machine t s (cleanupLocked ca cutoff) (.ok r) s' ∧
      s'.inventory = keptEntries s.inventory (keepEntry cutoff) ch ∧
      s'.memory t.replica = ((entrySerials (prunedEntries s.inventory (keepEntry cutoff) ch)).map
        serialHexStr).foldl Memory.unindex (s.memory t.replica) := by
  set pruned := prunedEntries s.inventory (keepEntry cutoff) ch
  let s₁ : State :=
    { s with
      inventory := keptEntries s.inventory (keepEntry cutoff) ch
      pruneLog := s.pruneLog ++ entrySerials pruned }
  have hprune : exec t s (.pruneInventory (keepEntry cutoff)) ch =
      some ((pruned, if ch.fails then some .storage else none), s₁) := rfl
  have hforget := canRun_modifyMemory (s := s₁)
    (f := fun m => ((entrySerials pruned).map serialHexStr).foldl Memory.unindex m) hmutex
  set s₂ : State :=
    { s₁ with
      memory := Function.update s₁.memory t.replica
        (((entrySerials pruned).map serialHexStr).foldl Memory.unindex (s₁.memory t.replica)) }
  have hget : exec t s₂ .getCRL {} = some (.error .notExist, s₂.noteRead t) := by
    simp [exec, readOutcome, s₂, s₁, hcrl]
  have hdrop : CanRun machine t s₂ (dropCRLEntriesLocked ca ((entrySerials pruned).map
      serialHexStr)) (.error .notExist) (s₂.noteRead t) :=
    .bind_error (.bind_error ((CanRun.cmd (M := machine) ({} : Choice) hget).bind .fail))
  have hrest : CanRun machine t s (cleanupLocked ca cutoff) (.ok (pruned.length,
      (if ch.fails then some Failure.storage else none).or (some .notExist))) (s₂.noteRead t) := by
    refine (CanRun.cmd (M := machine) ch hprune).bind ?_
    simp only
    rw [if_neg hpruned]
    have hdelete := canRun_deleteStoredCerts (t := t) (s := s₂.noteRead t) hcerts pruned
    exact hforget.bind (hdrop.attempt.bind (hdelete.bind .ret))
  exact ⟨_, _, hrest, rfl, Function.update_self ..⟩

/-- A cluster with nothing stored but its inventory, whose replicas know the serial `n`. -/
def bareState (inventory : List InventoryEntry) (n : ℤ) : State :=
  { inventory := inventory
    memory := fun _ => { serialIndex := [(serialHexStr n, [])] } }

/-- **A pass that removes one entry of two with the same serial**: the other one survives, and
the index has lost its serial. -/
theorem exists_solo_cleanup (ca : CA) {inventory : List InventoryEntry} {now : Time}
    {retain : Duration} {e e' : InventoryEntry} {i j : ℕ} (hi : inventory[i]? = some e)
    (hj : inventory[j]? = some e') (hne : i ≠ j)
    (hexpired : keepEntry (now - max retain 0) e = false) (hn : setString16 e.serial = some n) :
    ∃ es r s', Solo machine ⟨0, 0⟩ (bareState inventory n) (cleanupExpiredCerts ca retain)
      (⟨.now, now⟩ :: es) r s' ∧ e' ∈ s'.inventory ∧ ¬s'.Indexed 0 n := by
  -- The prune gets to remove `e`, and leaves other expired entries to a later pass.
  let ch : Choice := { removes := fun k => decide (k = i) }
  have hpruned : e ∈ prunedEntries inventory (keepEntry (now - max retain 0)) ch :=
    Data.mem_retainAt.mpr ⟨i, hi, by simp [hexpired, ch]⟩
  let s₀ := (bareState inventory n).noteTime ⟨0, 0⟩ now
  obtain ⟨r, s₁, hbody, hinv, hmem⟩ := canRun_cleanupLocked ca (t := ⟨0, 0⟩)
    (s := (s₀.setOwner .crl (some ⟨0, 0⟩)).setMutex 0 (some ⟨0, 0⟩)) ch
    rfl (fun _ => rfl) rfl (List.ne_nil_of_mem hpruned)
  have hpass := canRun_withLock (s := s₀) rfl (canRun_withMutex (t := ⟨0, 0⟩) rfl hbody)
  obtain ⟨es, hrun⟩ : CanRun machine ⟨0, 0⟩ s₀ (withError 0 (withLock .crl
    (withMutex (cleanupLocked ca (now - max retain 0))))) (.ok r) _ := hpass.attempt.bind .ret
  have hnow : exec ⟨0, 0⟩ (bareState inventory n) .now { time := now } = some (now, s₀) := rfl
  refine ⟨es, _, _, .call (M := machine) hnow hrun, ?_, ?_⟩
  · change e' ∈ s₁.inventory
    rw [hinv]
    exact Data.mem_retainAt.mpr ⟨j, hj, by simp [ch, hne.symm]⟩
  · rintro ⟨x, hx, hxn⟩
    change x ∈ (s₁.memory 0).serialIndex at hx
    rw [hmem] at hx
    refine (mem_unindexAll.mp hx).2 (hxn ▸ List.mem_map_of_mem ?_)
    exact mem_entrySerials.mpr ⟨e, hpruned, hn⟩

/-! ### The account -/

/-- **A cleanup pass spares every live serial exactly where no expired entry shares its
serial.** For a pass at time `now` over a given inventory – whatever else is stored, whatever
the prune gets to remove, and whatever fails – every serial borne by a surviving entry is still
on the CRL and still in the index, if and only if no entry that expired before the cutoff shares
its serial with one at another position. -/
theorem cleanup_spares_live_iff (ca : CA) (inventory : List InventoryEntry) (now : Time)
    (retain : Duration) :
    (∀ t s es r s', s.inventory = inventory →
      Solo machine t s (cleanupExpiredCerts ca retain) (⟨.now, now⟩ :: es) r s' →
      LiveKept ca.caCert s s') ↔ Unshared inventory (now - max retain 0) := by
  constructor
  · intro h i j e e' hi hj hne hexpired n hn hn'
    obtain ⟨es, r, s', hrun, hsurvives, hlost⟩ :=
      exists_solo_cleanup ca hi hj hne hexpired hn
    exact hlost ((h _ _ _ _ _ rfl hrun e' hsurvives n hn').2 0 ⟨_, List.mem_singleton.mpr rfl, rfl⟩)
  · rintro h t s es r s' rfl hrun
    obtain ⟨pruned, hp⟩ := solo_cleanupExpiredCerts hrun
    exact hp.liveKept h

/-- A revoked serial on two entries: one has expired, the other one has not. -/
def twinState : State :=
  { crl := some (encodeCRLChain
      [{ sampleCRL with entries := [{ serialNumber := 5, revocationTime := 0 }] }])
    inventory :=
      [{ serial := ['0', '5'], notBefore := some 0, notAfter := some 10, subject := ['m'] },
        { serial := ['5'], notBefore := some 0, notAfter := some 100, subject := ['n'] }] }

/-- **Cleanup un-revokes a live certificate.** At time `50` the entry `05` of the node `m` has
expired and the entry `5` of the node `n` has not; a pass in which nothing fails removes the
first, and with it the revocation of the second. -/
theorem cleanup_unrevokes : ∃ es r s', Solo machine ⟨0, 0⟩ twinState
    (cleanupExpiredCerts { caCert := sampleCert } 0) (⟨.now, 50⟩ :: es) r s' ∧
      5 ∈ twinState.listed sampleCert ∧
      s'.inventory.map InventoryEntry.serial = [['5']] ∧ s'.listed sampleCert = [] := by
  have hrun : ((withError 0 (withLock .crl (withMutex (cleanupLocked { caCert := sampleCert }
      (50 - max 0 0))))).runAlone machine ⟨0, 0⟩ (List.replicate 14 {})
      (twinState.noteTime ⟨0, 0⟩ 50)).map
        (fun x => (x.2.2.inventory.map InventoryEntry.serial, x.2.2.listed sampleCert)) =
      some ([['5']], []) := by decide +kernel
  obtain ⟨⟨es, r, s'⟩, hsolo, hv⟩ := Option.map_eq_some_iff.mp hrun
  obtain ⟨hinv, hlisted⟩ := Prod.mk.inj hv
  have hnow : exec ⟨0, 0⟩ twinState .now { time := 50 } =
      some (50, twinState.noteTime ⟨0, 0⟩ 50) := rfl
  exact ⟨es, r, s', .call (M := machine) hnow (.of_runAlone hsolo), by decide +kernel, hinv,
    hlisted⟩

end OpenvoxCa.Ca

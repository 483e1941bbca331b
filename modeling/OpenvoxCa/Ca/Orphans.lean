import OpenvoxCa.Ca.Books

/-!
# Orphans on the CRL

Serials get onto the CRL by subject and by serial, both of which look at the inventory first, and by
way of renewals and of the list of superseded certificates, which do not; and a cleanup pass prunes
the inventory before it writes the CRL. So there are four ways to a listed serial that no entry of
the inventory bears, and that no later pass takes off the CRL (`listed_orphaned`):

* a pass prunes, and then cannot read, sign or write the CRL;
* a pass prunes an entry whose serial is on the list of superseded certificates, and a sweep
  lists the serial later;
* a renewal retires a serial that the inventory does not bear;
* the inventory has a serial with `0x` in front, which `RevokeSerial` reads and a pass does not.

There is no fifth one: `listed_borne` is about every careful run from a legible inventory.
-/

namespace OpenvoxCa.Ca

open Conc

variable {ca : CA} {cert : Certificate} {t u : Tid} {j : Job} {s s' : State}
  {ns : List LockName} {b : Option Blob} {l : Option SupersededBlob} {pruned : List ℤ}
  {N : ℤ → Prop} {c : Cmd} {α β : Type}

/-! ### Listing serials -/

variable {Q : Except Failure β → State → Prop}

/-- `readStoredCRL`, followed by anything. -/
theorem readStoredCRL_bind_books {f : StoredCRL → Prog β}
    (herr : ∀ e s, Books t ns b l [] N s → Q (.error e) s)
    (hf : ∀ stored, ReadOf ca.caCert b stored →
      Triple (booksDiscipline ca.caCert) t j (Books t ns b l [] N) (f stored) Q) :
    Triple (booksDiscipline ca.caCert) t j (Books t ns b l [] N) ((readStoredCRL ca).bind f) Q := by
  exact readStoredCRL_books.seq (fun e s hs => herr e s hs.2) fun stored =>
    Triple.pure_pre fun hread => hf stored hread.1

/-- `signCRLLocked`, by who has pruned nothing. -/
theorem signCRLLocked_counts {stored : StoredCRL} {revoked : List RevocationEntry}
    (hread : ReadOf ca.caCert b stored)
    (hrevoked : ∀ e ∈ revoked, e.serialNumber ∈ stored.own.serials ∨ N e.serialNumber) :
    Triple (booksDiscipline ca.caCert) t j (Books t ns b l [] N)
      (signCRLLocked ca stored revoked) fun _ s => ∃ b', Books t ns b' l [] N s := by
  refine (signCRLLocked_books hread (fun h => absurd rfl h) hrevoked).weaken ?_
  rintro (e | _) s - hs
  · exact ⟨b, hs.2⟩
  · obtain ⟨b', -, hs⟩ := hs
    exact ⟨b', hs⟩

/-- `revokeSerialLocked` lists a serial that an entry bears. -/
theorem revokeSerialLocked_books {serialStr : Text}
    (hN : ∀ n, setString16 serialStr = some n → N n) :
    Triple (booksDiscipline ca.caCert) t j (fun s => ∃ b, Books t ns b l [] N s)
      (revokeSerialLocked ca serialStr) fun _ s => ∃ b, Books t ns b l [] N s := by
  have hst : Stable (booksDiscipline ca.caCert) t fun s => ∃ b, Books t ns b l [] N s :=
    Stable.exists fun _ => Books.stable
  have habout : AboutBooks fun s => ∃ b, Books t ns b l [] N s := by
    rintro s s' hss hsub ⟨b, hs⟩
    exact ⟨b, aboutBooks_books s s' hss hsub hs⟩
  unfold revokeSerialLocked
  cases hserial : setString16 serialStr with
  | none => exact Keeps.fail hst
  | some n =>
    refine Triple.exists_pre fun b =>
      readStoredCRL_bind_books (fun e s hs => ⟨b, hs⟩) fun stored hread => ?_
    split
    · exact Triple.ret Books.stable fun s _ hs => ⟨b, hs⟩
    · refine benign_cmd_bind Books.stable aboutBooks_books (c := .now) trivial fun now => ?_
      refine (signCRLLocked_counts hread fun e he => ?_).seq (fun _ _ hs => hs) fun _ =>
        benign_keeps hst habout (always_benign (local_modifyMemory _))
      rcases List.mem_append.mp he with he | he
      · exact Or.inl (List.mem_map_of_mem he)
      · rw [List.mem_singleton.mp he]
        exact Or.inr (hN n hserial)

theorem revokeSerialLocked_counts {serialStr : Text}
    (hN : ∀ n, setString16 serialStr = some n → N n) :
    Keeps (booksDiscipline ca.caCert) t j (Counts t ns N) (revokeSerialLocked ca serialStr) := by
  rintro s ⟨b, l, hs⟩
  refine wp_mono (revokeSerialLocked_books hN s ⟨b, hs⟩) ?_
  rintro r s' - ⟨b', hs'⟩
  exact hs'.counts

/-- The loop of `appendCRLEntriesLocked` lists nothing but what it was asked to. -/
theorem mem_foldl_appendStep {now : Time} {add : List ℤ} {acc : AppendAcc} {n : ℤ}
    (h : n ∈ (add.foldl (appendStep now) acc).serials) : n ∈ acc.serials ∨ n ∈ add := by
  induction add generalizing acc with
  | nil => exact Or.inl h
  | cons m add ih =>
    rcases ih h with h | h
    · unfold appendStep at h
      simp only at h
      split at h
      · exact Or.inl h
      · rw [AppendAcc.serials, List.map_append] at h
        rcases List.mem_append.mp h with h | h
        · exact Or.inl h
        · exact Or.inr (by simp_all)
    · exact Or.inr (List.mem_cons_of_mem _ h)

theorem appendCRLEntriesLocked_books {add : List ℤ} (hN : ∀ n ∈ add, N n) :
    Triple (booksDiscipline ca.caCert) t j (Books t ns b l [] N) (appendCRLEntriesLocked ca add)
      fun _ s => ∃ b', Books t ns b' l [] N s := by
  have hst : Stable (booksDiscipline ca.caCert) t fun s => ∃ b, Books t ns b l [] N s :=
    Stable.exists fun _ => Books.stable
  refine readStoredCRL_bind_books (fun e s hs => ⟨b, hs⟩) fun stored hread => ?_
  refine benign_cmd_bind Books.stable aboutBooks_books (c := .now) trivial fun now => ?_
  simp only
  split
  · exact Triple.ret Books.stable fun s _ hs => ⟨b, hs⟩
  · refine (signCRLLocked_counts hread fun e he => ?_).seq (fun _ _ hs => hs) fun _ =>
      Keeps.ret hst
    exact (mem_foldl_appendStep (List.mem_map_of_mem he)).imp_right (hN _)

/-! ### Revocation by subject and by serial -/

/-- What was asked of the inventory under the CRL lock stays true. -/
theorem asked_counts {c : Cmd} (hc : c.Reads) {M : c.Ans → ℤ → Prop}
    (hM : ∀ s ch a s' n, BooksInv cert s → exec t s c ch = some (a, s') → M a n → s'.Borne n)
    {f : c.Ans → Prog β}
    (hf : ∀ a, Triple (booksDiscipline cert) t j (Counts t ns fun n => N n ∨ M a n) (f a) Q) :
    Triple (booksDiscipline cert) t j (Counts t ns N) ((cmd c).bind f) Q := by
  refine Triple.call (R := fun a s => Counts t ns (fun n => N n ∨ M a n) s) Counts.stable
    (fun _ _ _ => (Cmd.Reads.local hc).benign.booksDuty) ?_ hf
  intro s ch a s' hinv hs he
  have hex := exec_of_careful he
  obtain ⟨b, l, hb⟩ := aboutBooks_counts.effect (Cmd.Reads.local hc).quiet (exec_effect hex) hs
  exact ⟨b, l, hb.toHolding, fun n hn => hn.elim (hb.borne n) (hM s ch a s' n hinv hex)⟩

theorem writeSuperseded_counts {entries : List SupersededEntry}
    (hN : ∀ n, Awaits entries n → N n) :
    Keeps (booksDiscipline cert) t j (Counts t ns N) (writeSuperseded entries) := by
  refine Triple.call (R := fun _ s => Counts t ns N s) Counts.stable ?_ ?_ fun a => ?_
  · rintro s - ⟨b, l, hs⟩
    exact ⟨hs.owner, fun m hm => hs.borne m (hN m hm)⟩
  · rintro s ch a s' - ⟨b, l, hs⟩ he
    rcases writeOutcome_cases (exec_of_careful he) with rfl | rfl
    · exact ⟨b, l, hs⟩
    · exact ⟨b, _, ⟨hs.held, hs.crl, rfl, hs.pruned⟩, hs.borne⟩
  · exact Triple.ofExcept Counts.stable fun s _ hs => hs

theorem readSuperseded_books :
    Triple (booksDiscipline cert) t j (Books t ns b l pruned N) readSuperseded fun r s =>
      (∀ read, r = .ok read → read.1 = entriesOf l) ∧ Books t ns b l pruned N s :=
  asking_spec (readSuperseded_spec : Triple (writerDiscipline { caCert := cert }) t j _ _ _)
    (Prog.only_bind reads_loadSuperseded fun _ => trivial)

/-- `readSuperseded`, followed by anything. -/
theorem readSuperseded_bind_books {f : List SupersededEntry × Bool → Prog β}
    (herr : ∀ e s, Books t ns b l pruned N s → Q (.error e) s)
    (hf : ∀ corrupt, Triple (booksDiscipline cert) t j (Books t ns b l pruned N)
      (f (entriesOf l, corrupt)) Q) :
    Triple (booksDiscipline cert) t j (Books t ns b l pruned N) (readSuperseded.bind f) Q := by
  refine readSuperseded_books.seq (fun e s hs => herr e s hs.2) ?_
  rintro ⟨entries, corrupt⟩
  refine Triple.pure_pre fun hread => ?_
  obtain rfl : entries = entriesOf l := hread _ rfl
  exact hf corrupt

theorem retireEach_books (entries : List SupersededEntry) (hN : ∀ n, Awaits entries n → N n) :
    Triple (booksDiscipline ca.caCert) t j (Counts t ns N) (retireEach ca entries) fun r s =>
      (∀ failed, r = .ok failed → failed ⊆ entries) ∧ Counts t ns N s := by
  induction entries with
  | nil => exact Triple.ret Counts.stable fun s _ hs => ⟨by simp, hs⟩
  | cons e rest ih =>
    refine Triple.attempt_bind (revokeSerialLocked_counts fun n hn =>
      hN n ⟨e, List.mem_cons_self, Or.inl hn⟩) fun r => ?_
    refine (ih fun n hn => hN n (hn.mono (List.subset_cons_self _ _))).seq
      (fun _ _ hs => ⟨by simp, hs.2⟩) fun failed => Triple.pure_pre fun hfailed => ?_
    cases r with
    | ok _ =>
      refine Triple.ret Counts.stable fun s _ hs => ⟨?_, hs⟩
      rintro _ ⟨⟩
      exact List.Subset.trans (hfailed _ rfl) (List.subset_cons_self _ _)
    | error _ =>
      refine Triple.ret Counts.stable fun s _ hs => ⟨?_, hs⟩
      rintro _ ⟨⟩
      exact List.cons_subset_cons e (hfailed _ rfl)

variable {subject : Text}

theorem retireSupersededForSubjectLocked_books (hN : ∀ n, Awaits (entriesOf l) n → N n) :
    Triple (booksDiscipline ca.caCert) t j (Books t ns b l [] N)
      (retireSupersededForSubjectLocked ca subject) fun _ s => Counts t ns N s := by
  refine Triple.attempt_bind readSuperseded_books fun r => Triple.pure_pre fun hread => ?_
  rcases r with e | ⟨entries, corrupt⟩
  · exact Triple.ret Books.stable fun s _ hs => hs.counts
  · obtain rfl : entries = entriesOf l := hread _ rfl
    simp only
    split
    · exact Triple.ret Books.stable fun s _ hs => hs.counts
    · refine ((retireEach_books _ fun n hn => hN n (hn.mono (List.filter_subset_self _))).strengthen
        fun _ hs => hs.counts).seq (fun _ _ hs => hs.2) fun failed =>
        Triple.pure_pre fun hfailed => ?_
      refine Triple.attempt_bind (writeSuperseded_counts fun n hn => hN n (hn.mono ?_)) fun _ =>
        Keeps.ret Counts.stable
      exact List.append_subset.mpr ⟨(List.filter_subset_self _),
        List.Subset.trans (hfailed _ rfl) (List.filter_subset_self _)⟩

theorem latestSerial_mem {inventory : List InventoryEntry} {serial : Text}
    (h : latestSerial inventory subject = some serial) :
    ∃ e ∈ inventory, e.subject = subject ∧ e.serial = serial := by
  obtain ⟨e, he, rfl⟩ := Option.map_eq_some_iff.mp h
  exact ⟨e, List.mem_reverse.mp (List.mem_of_find?_eq_some he),
    by simpa using List.find?_some he, rfl⟩

/-- **A revocation by subject** lists what is pending for it, and its newest entry. -/
theorem revokeLocked_books (hN : ∀ n, Awaits (entriesOf l) n → N n) :
    Triple (booksDiscipline ca.caCert) t j (Books t ns b l [] N) (revokeLocked ca subject)
      fun _ s => Accounted ca.caCert t ns s := by
  have hfail : ∀ {N : ℤ → Prop} {e : Failure}, Triple (booksDiscipline ca.caCert) t j
      (Counts t ns N) (.fail e : Prog Unit) fun _ s => Accounted ca.caCert t ns s :=
    Triple.fail Counts.stable fun s _ hs => hs.accounted
  refine (retireSupersededForSubjectLocked_books hN).seq (fun _ _ hs => hs.accounted) fun _ => ?_
  refine asked_counts (c := .latestSerialForSubject subject) trivial
    (M := fun a n => ∃ serial, a = .ok serial ∧ setString16 serial = some n) ?_ fun a => ?_
  · rintro s ch _ s' n - he ⟨serial, rfl, hn⟩
    obtain ⟨hread, rfl⟩ := Prod.mk.inj (Option.some.inj he)
    obtain ⟨e, hmem, -, rfl⟩ := latestSerial_mem (readOutcome_eq_ok hread)
    exact ⟨e, hmem, hn⟩
  · rcases a with e | serial
    · cases e <;> exact hfail
    · exact (revokeSerialLocked_counts fun n hn => Or.inr ⟨serial, rfl, hn⟩).weaken
        fun _ _ _ hs => hs.accounted

theorem findSubject_borne (hinv : BooksInv cert s) {n : ℤ}
    (h : findSubject s.inventory (serialHexStr n) = some subject) : s.Borne n := by
  obtain ⟨want, hwant, hfound⟩ := Option.bind_eq_some_iff.mp h
  obtain ⟨e, he, -⟩ := Option.map_eq_some_iff.mp hfound
  have hmem := List.mem_of_find?_eq_some he
  have hnorm : normaliseSerial e.serial = some want := by simpa using List.find?_some he
  rw [normaliseSerial_of_setString16 (setString16_serialHexStr n)] at hwant
  split at hwant
  · cases hwant
  · obtain rfl := Option.some.inj hwant
    exact ⟨e, hmem, hinv.legible.setString16 hmem (Or.inr hnorm)⟩

/-- **A revocation by serial** lists a serial that the inventory has a subject for. -/
theorem revokeSerialCheckedLocked_books {n : ℤ} {force : Bool} :
    Triple (booksDiscipline ca.caCert) t j (Counts t ns N)
      (revokeSerialCheckedLocked ca (serialHexStr n) force) fun _ s =>
        Accounted ca.caCert t ns s := by
  have hfail : ∀ {N : ℤ → Prop} {e : Failure}, Triple (booksDiscipline ca.caCert) t j
      (Counts t ns N) (.fail e : Prog Unit) fun _ s => Accounted ca.caCert t ns s :=
    Triple.fail Counts.stable fun s _ hs => hs.accounted
  have hrevoke : ∀ subject, Triple (booksDiscipline ca.caCert) t j
      (Counts t ns fun m => N m ∨ (∃ sub, (.ok subject : Except Failure Text) = .ok sub) ∧ m = n)
      (revokeSerialLocked ca (serialHexStr n)) fun _ s => Accounted ca.caCert t ns s := by
    refine fun subject => (revokeSerialLocked_counts fun m hm => ?_).weaken
      fun _ _ _ hs => hs.accounted
    rw [setString16_serialHexStr] at hm
    exact Or.inr ⟨⟨subject, rfl⟩, (Option.some.inj hm).symm⟩
  -- A serial for which the inventory names a subject is borne by an entry.
  refine asked_counts (c := .subjectForSerial (serialHexStr n)) trivial
    (M := fun a m => (∃ subject, a = .ok subject) ∧ m = n) ?_ fun a => ?_
  · rintro s ch _ s' m hinv he ⟨⟨subject, rfl⟩, rfl⟩
    obtain ⟨hread, rfl⟩ := Prod.mk.inj (Option.some.inj he)
    exact findSubject_borne hinv (readOutcome_eq_ok hread)
  · rcases a with e | subject
    · cases e <;> exact hfail
    · change Triple (booksDiscipline ca.caCert) t j (Counts t ns _)
        ((storedCertSerial subject).attempt.bind _) _
      refine Triple.attempt_bind (benign_keeps Counts.stable aboutBooks_counts
        (always_benign (always_local (reads_storedCertSerial subject)))) fun live => ?_
      rcases live with e | live
      · cases e <;> first | exact hrevoke subject | skip
        all_goals
          simp only
          split
          · exact hrevoke subject
          · exact hfail
      · simp only
        split
        · exact hfail
        · exact hrevoke subject

/-! ### The sweep and the recording -/

theorem drainDueLocked_books {due : List SupersededEntry} (hN : ∀ n, Awaits due n → N n) :
    Triple (booksDiscipline ca.caCert) t j (Books t ns b l [] N) (drainDueLocked ca due)
      fun r s => (∀ out, r = .ok out → out.failed ⊆ due ∧ out.deferred = []) ∧
        ∃ b', Books t ns b' l [] N s := by
  unfold drainDueLocked
  simp only
  split
  · refine Triple.ret Books.stable fun s _ hs => ⟨?_, b, hs⟩
    rintro _ ⟨⟩
    exact ⟨by simp, rfl⟩
  · refine Triple.attempt_bind (appendCRLEntriesLocked_books fun n hn => ?_) fun r => ?_
    · obtain ⟨e, he, hen⟩ := List.mem_filterMap.mp hn
      exact hN n ⟨e, (List.mem_filter.mp he).1, Or.inr hen⟩
    · have hst : Stable (booksDiscipline ca.caCert) t fun s => ∃ b', Books t ns b' l [] N s :=
        Stable.exists fun _ => Books.stable
      cases r with
      | error e =>
        refine Triple.ret hst fun s _ hs => ⟨?_, hs⟩
        rintro _ ⟨⟩
        exact ⟨List.filter_subset_self _, rfl⟩
      | ok _ =>
        refine Triple.ret hst fun s _ hs => ⟨?_, hs⟩
        rintro _ ⟨⟩
        exact ⟨by simp, rfl⟩

/-- **A sweep** lists what is pending, and leaves pending what was. -/
theorem sweepLocked_books (hN : ∀ n, Awaits (entriesOf l) n → N n) :
    Triple (booksDiscipline ca.caCert) t j (Books t ns b l [] N) (sweepLocked ca)
      fun _ s => Accounted ca.caCert t ns s := by
  refine readSuperseded_bind_books (fun e s hs => hs.counts.accounted) fun corrupt => ?_
  simp only
  split
  · split
    · exact ((writeSuperseded_counts fun n hn => hN n (hn.mono (by simp))).strengthen
        fun _ hs => hs.counts).seq (fun _ _ hs => hs.accounted)
        fun _ => Triple.ret Counts.stable fun s _ hs => hs.accounted
    · exact Triple.ret Books.stable fun s _ hs => hs.counts.accounted
  · refine benign_cmd_bind Books.stable aboutBooks_books (c := .now) trivial fun now => ?_
    have hdue : sortDue ((entriesOf l).filter fun e => ¬now < e.revokeAt) ⊆ entriesOf l :=
      List.Subset.trans (List.perm_insertionSort _ _).subset (List.filter_subset_self _)
    split
    · exact Triple.ret Books.stable fun s _ hs => hs.counts.accounted
    · refine (withMutex_books Books.stable aboutBooks_books ?_ ?_
        (drainDueLocked_books fun n hn => hN n (hn.mono hdue))).seq
        (fun _ _ ⟨_, _, hs⟩ => hs.counts.accounted) fun out => Triple.pure_pre fun hout =>
        Triple.exists_pre fun b' => ?_
      · exact fun r => (Stable.const _).and (Stable.exists fun _ => Books.stable)
      · rintro r s s' hss hsub ⟨hr, b', hs⟩
        exact ⟨hr, b', aboutBooks_books s s' hss hsub hs⟩
      · rw [(hout out rfl).2, List.append_nil]
        refine Triple.attempt_bind
          ((writeSuperseded_counts fun n hn => hN n (hn.mono ?_)).strengthen
          fun _ hs => hs.counts) fun r => ?_
        · exact List.append_subset.mpr
            ⟨List.filter_subset_self _, List.Subset.trans (hout out rfl).1 hdue⟩
        · cases r <;> exact Triple.ret Counts.stable fun s _ hs => hs.accounted

/-- **A recording** adds a serial that an entry bears. -/
theorem recordSuperseded_books {serial : Text} {after : Duration} {B : State → Prop}
    (hn : .crl ∉ ns) (hst : Stable (booksDiscipline cert) t B) (habout : AboutBooks B)
    (hB : ∀ s, B s → ∀ n, Spells serial n → s.Borne n) :
    Triple (booksDiscipline cert) t j (fun s => Held t ns s ∧ B s)
      (recordSuperseded subject serial after) fun _ s => Held t ns s := by
  unfold recordSuperseded
  cases hnorm : normaliseSerial serial with
  | none => exact Triple.fail (held_stable_books.and hst) fun s _ hs => hs.1
  | some canonical =>
    obtain ⟨n, -, rfl⟩ := exists_of_normaliseSerial hnorm
    refine benign_cmd_bind (c := .now) (held_stable_books.and hst) ?_ trivial fun now => ?_
    · exact fun s s' hss hsub hs => ⟨aboutBooks_held s s' hss hsub hs.1, habout s s' hss hsub hs.2⟩
    refine withCRLLock_books (N := fun k => k = n) hn hst ?_ fun b l => ?_
    · rintro s hs _ rfl
      exact hB s hs _ (Or.inr hnorm)
    · refine readSuperseded_bind_books (fun e s hs => hs.counts.accounted) fun corrupt => ?_
      refine (writeSuperseded_counts fun k hk => ?_).conseq (fun _ hs => hs.counts)
        fun _ _ _ hs => hs.accounted
      obtain ⟨e, he, hek⟩ := hk
      rcases List.mem_append.mp he with he | he
      · exact Or.inr ⟨e, he, hek⟩
      · rw [List.mem_singleton.mp he] at hek
        refine Or.inl ?_
        rcases hek with hek | hek
        · rw [setString16_serialHexStr] at hek
          exact (Option.some.inj hek).symm
        · exact (serial_unique (setString16_serialHexStr n) (dueNumber_eq_some.mp hek)).symm

/-! ### Renewals -/

/-- **Retiring a replaced certificate** whose entry is under the care of the subject's lock. -/
theorem supersedeReplaced_books {sub oldSerial : Text} :
    Triple (booksDiscipline ca.caCert) t j (Tending t sub oldSerial)
      (supersedeReplaced ca sub oldSerial) fun _ s => Held t [.subject sub] s := by
  have hpre : ∀ s, Tending t sub oldSerial s → Held t [.subject sub] s ∧
    Tending t sub oldSerial s :=
    fun s hs => ⟨hs.held, hs⟩
  unfold supersedeReplaced supersedeReplacedAfter
  split
  · refine (withCRLLock_books (N := Spells oldSerial) (by simp) Tending.stable
      (fun s hs n hn => (hs.borne n hn).borne) fun b l => ?_).conseq hpre fun _ _ _ hs => hs
    exact (withMutex_books Books.stable aboutBooks_books (fun _ => Counts.stable)
      (fun _ => aboutBooks_counts) ((revokeSerialLocked_counts fun m hm =>
        Or.inl (Or.inl hm)).strengthen fun _ hs => hs.counts)).weaken fun _ _ _ hs => hs.accounted
  · exact (recordSuperseded_books (by simp) Tending.stable aboutBooks_tending
      fun s hs n hn => (hs.borne n hn).borne).conseq hpre fun _ _ _ hs => hs

/-- Issuing a successor. -/
theorem benign_reissue (subject : Text) (original : Certificate) (pubKey : PublicKey) :
    (reissueLeafLocked ca subject original pubKey).Only Cmd.Benign :=
  benign_issueLeafLocked _ _ _ _ _ _ _ _

variable {body : Prog α}

theorem benign_withMutex (hbody : body.Only Cmd.Benign) : (withMutex body).Only Cmd.Benign :=
  always_cmd_bind trivial fun _ => Prog.only_ensure hbody (only_cmd (c := .unlockMutex) trivial)

/-- `latestSerialIfAny` finds an entry of the subject. -/
theorem latestSerialIfAny_bind {sub : Text} {f : Option Text → Prog β}
    (hnone : Keeps (booksDiscipline cert) t j (Held t [.subject sub]) (f none))
    (hsome : ∀ serial, Triple (booksDiscipline cert) t j (Tending t sub serial) (f (some serial))
      fun _ s => Held t [.subject sub] s) :
    Keeps (booksDiscipline cert) t j (Held t [.subject sub])
      ((latestSerialIfAny sub).bind f) := by
  refine Triple.call (R := fun a s => match a with
      | .ok serial => Tending t sub serial s
      | .error _ => Held t [.subject sub] s) held_stable_books (fun _ _ _ => trivial) ?_ fun a => ?_
  · intro s ch a s' hinv hs he
    obtain ⟨rfl, rfl⟩ := Prod.mk.inj (Option.some.inj (exec_of_careful he))
    cases hread : readOutcome ch (latestSerial s.inventory sub) with
    | error e => exact hs
    | ok serial =>
      obtain ⟨e, hmem, hsub, rfl⟩ := latestSerial_mem (readOutcome_eq_ok hread)
      exact ⟨hs, fun n hn => ⟨e, hmem, hsub, hinv.legible.setString16 hmem hn⟩⟩
  · cases a with
    | ok serial => exact hsome serial
    | error e => cases e <;> first | exact hnone | exact Keeps.fail held_stable_books

theorem renewLocked_books {sub : Text} {presentedCert : Certificate} {pubKey : PublicKey} :
    Keeps (booksDiscipline ca.caCert) t j (Held t [.subject sub])
      (renewLocked ca sub presentedCert pubKey) := by
  have hissue : (withMutex (do
      let certPEM ← reissueLeafLocked ca sub presentedCert pubKey
      let _ ← cmd (.deleteCSR sub)
      return certPEM)).Only Cmd.Benign :=
    benign_withMutex (Prog.only_bind (benign_reissue _ _ _) fun _ =>
      always_cmd_bind trivial fun _ => trivial)
  refine Keeps.bind (benign_keeps held_stable_books aboutBooks_held
    (always_benign (local_refuseIfRevoked ca presentedCert))) fun _ => ?_
  refine latestSerialIfAny_bind ?_ fun serial => ?_
  · exact Keeps.bind (benign_keeps held_stable_books aboutBooks_held hissue) fun _ =>
      Keeps.ret held_stable_books
  · refine benign_bind Tending.stable aboutBooks_tending hissue (fun e s _ hs => hs.held)
      fun _ _ => ?_
    exact Triple.attempt_bind supersedeReplaced_books fun _ =>
      Keeps.ret held_stable_books

theorem withSubjectLock_books {sub : Text} {A : State → Prop}
    (hA : ∀ s, CarefulJob j (.lock (.subject sub)) s →
      Held t [.subject sub] (s.setOwner (.subject sub) (some t)) →
      A (s.setOwner (.subject sub) (some t)))
    (hbody : Triple (booksDiscipline cert) t j A body fun _ s => Held t [.subject sub] s) :
    Keeps (booksDiscipline cert) t j (Held t []) (withLock (.subject sub) body) := by
  refine (withLock_triple (P := fun _ _ => True) (Q := fun _ _ => True) (B := fun _ => True)
    exec_of_careful (fun _ => held_stable_books) (by simp) (Stable.const _) (fun _ => trivial)
    (fun s _ hkn _ => hA s hkn) (hbody.weaken fun _ _ _ hs => ⟨hs, trivial⟩)
    (fun _ => Stable.const _) ?_ (fun _ _ _ _ => trivial) (fun _ => Stable.const _)
    fun _ _ => trivial).conseq (fun _ hs => ⟨hs, trivial⟩) fun _ _ _ hs => hs.1
  intro r s _ hs _
  exact ⟨(hs _).mpr (List.mem_singleton.mpr rfl), by simp⟩

/-- The operations of a subject keep the books where their pieces do. -/
theorem builds_books : Builds fun ns _ {_} p =>
    Keeps (booksDiscipline cert) t j (Held t ns) p where
  closed := fun _ _ => Keeps.closed fun hp => benign_keeps held_stable_books aboutBooks_held
    (Prog.always_imp hp fun _ => Cmd.Neutral.benign)
  withMutex := withMutex_books held_stable_books aboutBooks_held (fun _ => held_stable_books)
    fun _ => aboutBooks_held
  withSubject := fun _ => withSubjectLock_books fun _ _ hs => hs

/-- The body of `AutoRenew`: where it retires the presented certificate, it knows its entry. -/
theorem autoRenewLocked_books {presentedCert : Certificate} :
    Triple (booksDiscipline ca.caCert) t j (fun s =>
        Held t [.subject presentedCert.subject.commonName] s ∧ (ca.revokeOnAutoRenew = true →
          Tending t presentedCert.subject.commonName (serialHexStr presentedCert.serialNumber) s))
      (autoRenewLocked ca presentedCert.subject.commonName presentedCert) fun _ s =>
        Held t [.subject presentedCert.subject.commonName] s := by
  by_cases hrevoke : ca.revokeOnAutoRenew = true
  · refine Triple.conseq (P := Tending t presentedCert.subject.commonName
      (serialHexStr presentedCert.serialNumber)) ?_ (fun s hs => hs.2 hrevoke) fun _ _ _ hs => hs
    refine benign_bind Tending.stable aboutBooks_tending
      (always_benign (local_refuseIfRevoked ca presentedCert)) (fun e s _ hs => hs.held)
      fun _ _ => ?_
    refine benign_bind Tending.stable aboutBooks_tending (benign_withMutex (benign_reissue _ _ _))
      (fun e s _ hs => hs.held) fun _ _ => ?_
    simp only [hrevoke, not_true_eq_false, if_false]
    exact Triple.attempt_bind supersedeReplaced_books fun _ =>
      Keeps.ret held_stable_books
  · refine Triple.conseq (P := Held t [.subject presentedCert.subject.commonName]) ?_
      (fun s hs => hs.1) fun _ _ _ hs => hs
    refine Keeps.bind (benign_keeps held_stable_books aboutBooks_held
      (always_benign (local_refuseIfRevoked ca presentedCert))) fun _ => ?_
    refine Keeps.bind (benign_keeps held_stable_books aboutBooks_held
      (benign_withMutex (benign_reissue _ _ _))) fun _ => ?_
    rw [if_pos hrevoke]
    exact Keeps.ret held_stable_books

theorem autoRenew_books {presented : Option Certificate} (hop : j.op = .autoRenew presented)
    (hconfig : ca.toConfig = j.config) :
    Keeps (booksDiscipline ca.caCert) t j (Held t []) (autoRenew ca presented) := by
  unfold autoRenew
  cases presented with
  | none => exact Keeps.fail held_stable_books
  | some presentedCert =>
    simp only
    split
    · split
      · refine Keeps.bind (benign_keeps held_stable_books aboutBooks_held
          (always_benign (local_refuseIfRevoked ca presentedCert))) fun _ =>
          withSubjectLock_books (fun s hkn hs => ⟨hs, fun hrevoke => ⟨hs, fun n hn => ?_⟩⟩)
            autoRenewLocked_books
        obtain rfl : presentedCert.serialNumber = n := by
          rcases hn with hn | hn
          · simpa using hn
          · exact serial_unique (setString16_serialHexStr _) hn
        exact hkn presentedCert hop (by rwa [← hconfig])
      · exact Keeps.fail held_stable_books
    · exact Keeps.fail held_stable_books

/-! ### Cleanup -/

/-- **`dropCRLEntriesLocked`** leaves no pruned serial listed. -/
theorem dropCRLEntriesLocked_books :
    Triple (booksDiscipline ca.caCert) t j (Books t ns b l pruned N)
      (dropCRLEntriesLocked ca (pruned.map serialHexStr)) fun _ s =>
        Accounted ca.caCert t ns s := by
  have hcontains : ∀ n,
      (pruned.map serialHexStr).contains (serialHexStr n) = true ↔ n ∈ pruned := by
    simp
  refine readStoredCRL_books.seq ?_ fun stored => Triple.pure_pre fun ⟨hread, hdec⟩ => ?_
  · rintro e s ⟨hr, hs⟩
    refine ⟨b, l, pruned, hs.toHolding, fun n hn hmem => ?_⟩
    rw [hr (List.ne_nil_of_mem hmem)] at hn
    cases hn
  simp only
  split
  · next hlen =>
    -- Nothing was filtered out, so nothing listed was pruned.
    refine Triple.ret Books.stable fun s _ hs => ⟨b, l, pruned, hs.toHolding, fun n hn hmem => ?_⟩
    rw [hread.listedIn] at hn
    obtain ⟨e, he, rfl⟩ := List.mem_map.mp hn
    have hkept := List.length_filter_eq_length_iff.mp hlen e he
    rw [Bool.not_eq_true', Bool.eq_false_iff] at hkept
    exact hkept ((hcontains _).mpr hmem)
  · refine (signCRLLocked_books hread hdec fun e he => ?_).weaken ?_
    · exact Or.inl (List.mem_map_of_mem (List.mem_filter.mp he).1)
    · rintro (e | _) s - hs
      · obtain ⟨rfl, hs⟩ := hs
        exact hs.counts.accounted
      · obtain ⟨b', hb', hs⟩ := hs
        refine ⟨b', l, pruned, hs.toHolding, fun n hn hmem => ?_⟩
        rw [hb'] at hn
        obtain ⟨e, he, rfl⟩ := List.mem_map.mp hn
        have hkept := (List.mem_filter.mp he).2
        rw [Bool.not_eq_true', Bool.eq_false_iff] at hkept
        exact hkept ((hcontains _).mpr hmem)

theorem cleanupLocked_books {cutoff : Time} :
    Triple (booksDiscipline ca.caCert) t j (Books t ns b l [] N) (cleanupLocked ca cutoff)
      fun _ s => Accounted ca.caCert t ns s := by
  refine Triple.call (R := fun a s => Books t ns b l (entrySerials a.1) (fun _ => False) s)
    Books.stable (fun s _ hs => hs.owner) ?_ ?_
  · intro s ch a s' hinv hs he
    obtain ⟨rfl, rfl⟩ := Prod.mk.inj (Option.some.inj (exec_of_careful he))
    refine ⟨⟨hs.held, hs.crl, hs.superseded, ?_⟩, fun _ h => h.elim⟩
    have hpruned := hs.pruned
    rw [State.holdPruned] at hpruned
    rw [State.holdPruned, List.drop_append_of_le_length hinv.history.1, hpruned, List.nil_append]
  · rintro ⟨dropped, pruneErr⟩
    simp only [Prog.ret_bind]
    split
    · next hnone =>
      refine Triple.ret Books.stable fun s _ hs => ?_
      rw [hnone] at hs
      exact hs.counts.accounted
    · refine benign_bind Books.stable aboutBooks_books (always_benign (modifyMemory_always _))
        (fun e s h => by cases h) fun _ _ => ?_
      refine Triple.attempt_bind dropCRLEntriesLocked_books fun r => ?_
      exact Keeps.bind (benign_keeps Accounted.stable aboutBooks_accounted
        (Prog.always_imp (neutral_deleteStoredCerts dropped) fun _ => Cmd.Neutral.benign)) fun _ =>
        Keeps.ret Accounted.stable

/-! ### Every careful run -/

/-- The operations that list serials, make them pending, or prune. -/
def Op.Lists : Op → Prop
  | .revoke _ => True
  | .revokeSerial _ _ => True
  | .renew _ _ _ => True
  | .autoRenew _ => True
  | .reconcileSuperseded => True
  | .cleanupExpiredCerts _ => True
  | _ => False

/-- An operation under the CRL lock alone. -/
theorem withCRLLock_accounts (hn : .crl ∉ ns)
    (hbody : ∀ b l, Triple (booksDiscipline cert) t j
      (Books t ns b l [] fun n => False ∨ Awaits (entriesOf l) n) body fun _ s =>
        Accounted cert t ns s) :
    Keeps (booksDiscipline cert) t j (Held t ns) (withLock .crl body) :=
  (withCRLLock_books (B := fun _ => True) hn (Stable.const _) (fun _ _ _ h => h.elim)
    hbody).strengthen fun _ hs => ⟨hs, trivial⟩

theorem withMutex_accounted (hbody : Triple (booksDiscipline cert) t j
    (Books t ns b l [] N) body fun _ s => Accounted cert t ns s) :
    Triple (booksDiscipline cert) t j (Books t ns b l [] N) (withMutex body) fun _ s =>
      Accounted cert t ns s :=
  withMutex_books Books.stable aboutBooks_books (fun _ => Accounted.stable)
    (fun _ => aboutBooks_accounted) hbody

theorem operation_books (ca : CA) (t : Tid) (j : Job) (hj : j.op.Lists)
    (hconfig : ca.toConfig = j.config) :
    Keeps (booksDiscipline ca.caCert) t j (Held t []) (operation ca j.op) := by
  have hheld : Stable (booksDiscipline ca.caCert) t (Held t []) := held_stable_books
  have hbuild : Builds fun ns _ {_} p => Keeps (booksDiscipline ca.caCert) t j (Held t ns) p :=
    builds_books
  have hnone := closed_reads (hbuild.closed [] false)
  cases hop : j.op with
  | revoke subject =>
    exact Keeps.bind (hbuild.revoke (withCRLLock_accounts (by simp) fun b l =>
      withMutex_accounted (revokeLocked_books fun n hn => Or.inr hn))) fun _ => Keeps.ret hheld
  | revokeSerial serial force =>
    refine Keeps.bind ?_ fun _ => Keeps.ret hheld
    unfold revokeSerial
    split
    · exact Keeps.fail hheld
    · next normalised hnorm =>
      obtain ⟨n, -, rfl⟩ := exists_of_normaliseSerial hnorm
      exact withCRLLock_accounts (by simp) fun b l => withMutex_accounted
        (revokeSerialCheckedLocked_books.strengthen fun _ hs => hs.counts)
  | renew subject csrPEM presented =>
    refine Keeps.bind (hbuild.renew (fun cert => ?_) (fun _ _ _ => renewLocked_books) csrPEM)
      fun _ => Keeps.ret hheld
    exact benign_keeps hheld aboutBooks_held (always_benign (local_refuseIfRevoked ca cert))
  | autoRenew presented =>
    exact Keeps.bind (autoRenew_books hop hconfig) fun _ => Keeps.ret hheld
  | reconcileSuperseded =>
    refine Keeps.bind ?_ fun _ => Keeps.ret hheld
    refine Keeps.bind (Keeps.attempt (hnone.only reads_loadSuperseded)) fun r => ?_
    split
    · exact Keeps.ret hheld
    · exact closed_withError hnone (withCRLLock_accounts (by simp) fun b l =>
        sweepLocked_books fun n hn => Or.inr hn)
  | cleanupExpiredCerts retain =>
    refine Keeps.bind ?_ fun _ => Keeps.ret hheld
    refine benign_cmd_bind hheld aboutBooks_held (c := .now) trivial fun now => ?_
    exact closed_withError hnone (withCRLLock_accounts (by simp) fun b l =>
      withMutex_accounted cleanupLocked_books)
  | _ =>
    rw [hop] at hj
    exact hj.elim

/-- **The proof outline of careful runs.** -/
noncomputable def booksOutline (cert : Certificate) :
    GuardedOutline (carefulMachine cert) (serving cert) where
  toDiscipline := booksDiscipline cert
  Menu := fun j => j.op.Lists
  Idle := fun t _ => Held t []
  Post := fun _ _ _ _ => True
  allowed_of_duty := id
  idle_stable := fun _ _ => held_stable_books
  job := fun t j _ hj =>
    (operation_books { toConfig := j.config, caCert := cert } t j hj rfl).weaken fun _ _ _ hs =>
      ⟨hs, trivial⟩

/-- **A cluster to start from**: nobody holds a lock, and every listed or pending serial is borne
by an entry of the inventory. -/
structure State.InOrder (s : State) (cert : Certificate) : Prop where
  unlocked : s.Unlocked
  history : HistoryOk s
  unpruned : s.holdPruned = []
  pending : ∀ n, Awaits s.pending n → s.Borne n
  listed : ∀ n ∈ s.listed cert, s.Borne n

/-- **Every listed serial can be cleaned up**, in careful runs from a legible inventory. In every
run of revocations by subject and by serial, renewals, sweeps and cleanup passes, on any number of
replicas, whatever else fails: every serial on the stored own CRL is borne by an entry of the
inventory, or has just been pruned by a pass that still holds the CRL lock. -/
theorem listed_borne {s₀ : State} (h₀ : s₀.InOrder cert) (hlegible : s₀.Legible)
    {ls : List (Event cert)} {p : Cluster cert} (hls : ∀ t j, .start t j ∈ ls → j.op.Lists)
    (hcare : (Pool.initial s₀ : Cluster cert).Throughout Careful ls)
    (hp : (Pool.initial s₀).run ls = some p) :
    (∀ n ∈ p.shared.listed cert, p.shared.Borne n ∨ n ∈ p.shared.holdPruned) ∧
      (p.shared.owner .crl = none → ∀ n ∈ p.shared.listed cert, p.shared.Borne n) := by
  have hpermits := hcare.mono Careful.permits
  have hknowing := Pool.restrict_throughout (execCareful cert) (K := (booksOutline cert).Knowing)
    ?_ hp hpermits hcare
  · have hinv : BooksInv cert s₀ := ⟨h₀.history, fun _ => h₀.unpruned, hlegible, h₀.pending,
      fun n hn => Or.inl (h₀.listed n hn)⟩
    have hsound : (booksOutline cert).Sound (Pool.initial s₀) :=
      GuardedOutline.sound_initial _ hinv fun t n => by simp [h₀.unlocked n]
    have hp' := hsound.run _ (fun t j h => hls t j (start_mem_restrict _ h)) hknowing
      (Pool.restrict_run _ hp hpermits)
    have hbooks : BooksInv cert p.shared := hp'.1.1
    refine ⟨hbooks.listed, fun hfree n hn => (hbooks.listed n hn).resolve_right ?_⟩
    simp [hbooks.free hfree]
  · intro p l h t ch j c k hl ht
    obtain ⟨hl', ht'⟩ := Pool.of_restrict _ hl ht
    exact (h t ch j c k hl' ht').2

instance (s : State) (n : ℤ) : Decidable (s.Borne n) :=
  inferInstanceAs (Decidable (∃ e ∈ s.inventory, setString16 e.serial = some n))

instance (s : State) : Decidable s.Legible :=
  inferInstanceAs (Decidable (∀ e ∈ s.inventory,
    (normaliseSerial e.serial).isSome → (setString16 e.serial).isSome))

/-- The event does not prune, nothing has been pruned, and it is not a renewal under the
presented key that is at work. -/
def checkPlain (p : Cluster cert) : Event cert → Bool
  | .step t _ =>
    match p.thread t with
    | .running _ (.call (.pruneInventory _) _) => false
    | .running { op := .autoRenew _, .. } _ => false
    | _ => p.shared.holdPruned == []
  | _ => true

theorem careful_of_check {p : Cluster cert} {l : Event cert} (h : checkPlain p l = true) :
    Careful p l := by
  rintro t ch j c k rfl ht
  have hop : ∀ presented, j.op ≠ .autoRenew presented := by
    rintro presented hop
    obtain ⟨op, config⟩ := j
    obtain rfl : op = .autoRenew presented := hop
    cases c <;> simp [checkPlain, ht] at h
  refine ⟨?_, ?_⟩
  · cases c with
    | pruneInventory keep => simp [checkPlain, ht] at h
    | _ =>
      rintro ⟨-, hne⟩
      refine absurd ?_ hne
      obtain ⟨op, config⟩ := j
      cases op <;> simp_all [checkPlain]
  · cases c with
    | lock n =>
      cases n with
      | subject sub => exact fun presented h => absurd h (hop _)
      | _ => trivial
    | _ => trivial

/-- A cluster that nobody has touched, with what it has in storage. -/
theorem inOrder_of_stored {crl : Option Blob} {superseded : Option SupersededBlob}
    {inventory : List InventoryEntry} (hs : s = { crl, superseded, inventory })
    (hpending : ∀ e ∈ s.pending, ∀ n ∈ (setString16 e.serial).toList ++ (dueNumber e).toList,
      s.Borne n) (hlisted : ∀ n ∈ s.listed cert, s.Borne n) : s.InOrder cert where
  unlocked := fun _ => by rw [hs]
  history := by rw [hs]; exact ⟨le_rfl, fun _ => le_rfl⟩
  unpruned := by rw [hs]; rfl
  pending := by
    rintro n ⟨e, he, hn⟩
    exact hpending e he n (by simpa using hn)
  listed := hlisted

theorem sampleState_inOrder : sampleState.InOrder sampleCert :=
  inOrder_of_stored rfl (by decide +kernel) (by decide +kernel)

/-- A node is revoked; the inventory has the serial that is listed. -/
theorem listed_borne_sample : ∃ p : Cluster sampleCert,
    (Pool.initial sampleState).run (runOf sampleCert (.revoke ['n']) 17) = some p ∧
      p.shared.listed sampleCert = [5] ∧ p.shared.owner .crl = none ∧ p.shared.Borne 5 := by
  have hrun : ((Pool.initial sampleState).run (runOf sampleCert (.revoke ['n']) 17)).map
      (fun p => (p.shared.listed sampleCert, p.shared.owner .crl)) = some ([5], none) := by
    decide +kernel
  obtain ⟨p, hp, hv⟩ := Option.map_eq_some_iff.mp hrun
  obtain ⟨hlisted, hfree⟩ := Prod.mk.inj hv
  have hmenu : ∀ t j, .start t j ∈ runOf sampleCert (.revoke ['n']) 17 → j.op.Lists := by
    simp only [runOf, List.mem_cons, List.mem_replicate]
    rintro t j (⟨⟨⟩⟩ | ⟨-, ⟨⟩⟩)
    trivial
  refine ⟨p, hp, hlisted, hfree, ?_⟩
  exact (listed_borne sampleState_inOrder (by decide +kernel) hmenu
    (Pool.throughout_of_check careful_of_check (by decide +kernel)) hp).2 hfree 5
      (by simp [hlisted])

/-! ### Four ways to an orphan -/

/-- A serial is listed that no entry bears, and nobody holds the CRL lock. -/
def Orphaned (n : ℤ) (p : Cluster cert) : Prop :=
  n ∈ p.shared.listed cert ∧ ¬p.shared.Borne n ∧ p.shared.owner .crl = none

instance (n : ℤ) (p : Cluster cert) : Decidable (Orphaned n p) :=
  inferInstanceAs (Decidable (_ ∧ _ ∧ _))

/-- A thread takes a number of steps at time `50`, where `9` is the next random serial. -/
def stepsAt50 (steps : ℕ) : List (Event sampleCert) :=
  List.replicate steps (.step ⟨0, 0⟩ { time := 50, number := 9 })

/-- The entry `05` of the node `n`, which has expired by then. -/
def expiredEntry : InventoryEntry :=
  { serial := ['0', '5'], notBefore := some 0, notAfter := some 10, subject := ['n'] }

/-- The serial `5` is listed. -/
def revokedState : State :=
  { crl := some (encodeCRLChain
      [{ sampleCRL with entries := [{ serialNumber := 5, revocationTime := 0 }] }])
    inventory := [expiredEntry] }

/-- A pass prunes the entry, and the signature of the CRL fails. -/
def failedPass : List (Event sampleCert) :=
  .start ⟨0, 0⟩ { op := .cleanupExpiredCerts 0 } :: stepsAt50 8 ++
    .step ⟨0, 0⟩ { fails := true } :: stepsAt50 3 ++ [.finish ⟨0, 0⟩]

/-- The serial `5` is pending. -/
def supersededState : State :=
  { crl := some (encodeCRLChain [sampleCRL])
    superseded := some { entries := [{ serial := ['5'], subject := ['n'], revokeAt := 0 }] }
    inventory := [expiredEntry] }

/-- A pass prunes the entry, and a sweep lists the serial. -/
def prunedAndSwept : List (Event sampleCert) :=
  .start ⟨0, 0⟩ { op := .cleanupExpiredCerts 0 } :: stepsAt50 10 ++ .finish ⟨0, 0⟩ ::
    .start ⟨0, 0⟩ { op := .reconcileSuperseded } :: stepsAt50 15 ++ [.finish ⟨0, 0⟩]

def emptyState : State := { crl := some (encodeCRLChain [sampleCRL]) }

/-- The certificate `5` is renewed under its key, and retired. -/
def strangerRenewed : List (Event sampleCert) :=
  .start ⟨0, 0⟩ { op := .autoRenew (some sampleLeaf), config := { revokeOnAutoRenew := true } } ::
    stepsAt50 38 ++ [.finish ⟨0, 0⟩]

/-- The inventory has the serial `5` as the server that wrote it before does. -/
def markedState : State :=
  { emptyState with inventory := [{ expiredEntry with serial := ['0', 'x', '5'] }] }

def markedRevoked : List (Event sampleCert) :=
  .start ⟨0, 0⟩ { op := .revokeSerial ['5'] false } :: stepsAt50 15 ++ [.finish ⟨0, 0⟩]

/-- From a cluster in order, the run leads to an orphan. -/
def Orphans (s₀ : State) (ls : List (Event sampleCert)) (n : ℤ) : Prop :=
  s₀.InOrder sampleCert ∧ ∃ p : Cluster sampleCert,
    (Pool.initial s₀).run ls = some p ∧ Orphaned n p

theorem orphans_of_run {s₀ : State} {ls : List (Event sampleCert)} {n : ℤ}
    (h₀ : s₀.InOrder sampleCert)
    (h : ((Pool.initial s₀).run ls).map (fun p => decide (Orphaned n p)) = some true) :
    Orphans s₀ ls n := by
  obtain ⟨p, hp, hv⟩ := Option.map_eq_some_iff.mp h
  exact ⟨h₀, p, hp, of_decide_eq_true hv⟩

/-- **Serials are listed that no later pass can take off the CRL.** A pass has pruned the entry of
a listed serial when the signature of the CRL fails; a pass prunes the entry of a pending serial,
which a sweep lists afterwards; a renewal lists the serial of the certificate it was presented
with, which the inventory does not have. All that with a legible inventory; and where the inventory
has `0x5`, a revocation of the serial `5` lists it. -/
theorem listed_orphaned : (Orphans revokedState failedPass 5 ∧ revokedState.Legible) ∧
    (Orphans supersededState prunedAndSwept 5 ∧ supersededState.Legible) ∧
    (Orphans emptyState strangerRenewed 5 ∧ emptyState.Legible) ∧
    Orphans markedState markedRevoked 5 :=
  ⟨⟨orphans_of_run (inOrder_of_stored rfl (by decide +kernel) (by decide +kernel))
      (by decide +kernel), by decide +kernel⟩,
    ⟨orphans_of_run (inOrder_of_stored rfl (by decide +kernel) (by decide +kernel))
      (by decide +kernel), by decide +kernel⟩,
    ⟨orphans_of_run (inOrder_of_stored rfl (by decide +kernel) (by decide +kernel))
      (by decide +kernel), by decide +kernel⟩,
    orphans_of_run (inOrder_of_stored rfl (by decide +kernel) (by decide +kernel))
      (by decide +kernel)⟩

end OpenvoxCa.Ca

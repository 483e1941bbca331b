import OpenvoxCa.Ca.Alone
import OpenvoxCa.Ca.Renewal

/-!
# What a renewal retires

A renewal that succeeds retires a certificate: its serial goes on the CRL at once, or on the list of
superseded certificates for later. `AutoRenew` retires the certificate that was presented to it.
`Renew` retires the newest one that the inventory has for the subject, and nothing if there is none;
whether that is the certificate that was presented is not checked. A subject that holds two
certificates – after an enrolment under `AllowDuplicateCerts`, or an automatic renewal with
`RevokeOnAutoRenew` off – and renews with the older one loses the newer one to the CRL, and the
older one stays valid (`renew_retires_another`).

`renewal_retires_presented` says exactly when a renewal retires what was presented and nothing else,
for every reachable state of a cluster.
-/

namespace OpenvoxCa.Ca

open Conc

variable {ca : CA} {cert : Certificate} {t : Tid} {s s' : State} {ns : List LockName}
  {es : List (Exchange interface)}

/-! ### Putting a serial away -/

/-- The number of the serial that `supersedeReplacedAfter` retires, given its text. -/
def retiredNumber (after : Duration) (serial : Text) : Option ℤ :=
  if after ≤ 0 then setString16 serial else (normaliseSerial serial).bind setString16

/-- The serial `m` is where `supersedeReplacedAfter` puts it. -/
def PutAway (cert : Certificate) (after : Duration) (m : ℤ) (s : State) : Prop :=
  if after ≤ 0 then m ∈ s.listed cert else Bears s.pending m

/-- The serial `m` has been put away, and nothing else has moved. -/
structure Retired (cert : Certificate) (after : Duration) (m : ℤ) (s s' : State) : Prop where
  listed : ∀ k, k ∈ s'.listed cert ↔ (after ≤ 0 ∧ k = m) ∨ k ∈ s.listed cert
  pending : ∀ k, Bears s'.pending k ↔ (0 < after ∧ k = m) ∨ Bears s.pending k

theorem holding_of_held (hheld : Held t ns s) :
    Holding t ns s.crl s.superseded [] (s.setOwner .crl (some t)) :=
  ⟨hheld.lock, rfl, rfl, by simp [State.holdPruned, State.setOwner]⟩

theorem solo_revokeAtOnce {serial : Text} {r : Except Failure Unit} (hinv : HistoryOk s)
    (hheld : Held t ns s)
    (h : Solo machine t s (withLock .crl (withMutex (revokeSerialLocked ca serial))) es r s') :
    s'.superseded = s.superseded ∧ (∀ e, r = .error e → s'.crl = s.crl) ∧
      (r = .ok () → ∃ m, setString16 serial = some m ∧ Lists ca.caCert m s.crl s'.crl) := by
  obtain ⟨rfl, rfl, -⟩ | ⟨s₁, es₁, hbody, rfl, rfl⟩ := solo_withLock h
  · exact ⟨rfl, fun _ _ => rfl, nofun⟩
  · obtain ⟨s₂, es₂, hrevoke, rfl, rfl⟩ := solo_withMutex hbody
    have hhold := holding_of_held hheld
    have hend := solo_spec (j := { op := .reissueCRL }) hrevoke (hinv.setOwner .crl (some t))
      revokeSerialLocked_spec ⟨hhold.held, hhold.crl, hhold.superseded, hhold.pruned⟩
    cases r with
    | error e => exact ⟨hend.superseded, fun _ _ => hend.crl, nofun⟩
    | ok _ =>
      obtain ⟨m, b', hm, hlists, hend⟩ := hend
      refine ⟨hend.superseded, nofun, fun _ => ⟨m, hm, ?_⟩⟩
      change Lists ca.caCert m s.crl s₂.crl
      rwa [hend.crl]

theorem solo_writeSuperseded {entries : List SupersededEntry} {r : Except Failure Unit}
    (h : Solo machine t s (writeSuperseded entries) es r s') :
    (r = .ok () ∧ s' = s.setSuperseded t { entries := entries }) ∨ ∃ e, r = .error e ∧ s' = s := by
  obtain ⟨ch, a, s₁, es₁, hex, hret, -⟩ := Solo.call_inv h
  obtain ⟨-, rfl, rfl⟩ := Solo.ofExcept_inv hret
  simp only [exec, writeOutcome] at hex
  split at hex <;> cases hex
  · exact Or.inr ⟨_, rfl, rfl⟩
  · exact Or.inl ⟨rfl, rfl⟩

theorem bears_append {entries : List SupersededEntry} {e : SupersededEntry} {m k : ℤ}
    (he : dueNumber e = some m) : Bears (entries ++ [e]) k ↔ k = m ∨ Bears entries k := by
  have hlast : (∃ x ∈ [e], dueNumber x = some k) ↔ k = m := by
    simp [he, eq_comm]
  simp only [Bears, List.mem_append, or_and_right, exists_or]
  rw [or_comm, hlast]

variable {subject : Text} {after : Duration} {r : Renewal}

theorem solo_recordSuperseded (cert : Certificate) {serial : Text} {r : Except Failure Unit}
    (hinv : HistoryOk s) (hheld : Held t ns s)
    (h : Solo machine t s (recordSuperseded subject serial after) es r s') :
    s'.crl = s.crl ∧ (∀ e, r = .error e → s'.superseded = s.superseded) ∧
      (r = .ok () → ∃ m, (normaliseSerial serial).bind setString16 = some m ∧
        ∀ k, Bears s'.pending k ↔ k = m ∨ Bears s.pending k) := by
  unfold recordSuperseded at h
  cases hserial : normaliseSerial serial with
  | none =>
    rw [hserial] at h
    obtain ⟨-, rfl, rfl⟩ := Solo.fail_inv h
    exact ⟨rfl, fun _ _ => rfl, nofun⟩
  | some canonical =>
    rw [hserial] at h
    obtain ⟨m, hm, rfl⟩ := exists_of_normaliseSerial hserial
    obtain ⟨ch, now, s₁, es₁, hex, hrest, -⟩ := Solo.call_inv h
    cases hex
    obtain ⟨rfl, rfl, -⟩ | ⟨s₂, es₂, hbody, rfl, -⟩ := solo_withLock hrest
    · exact ⟨rfl, fun _ _ => rfl, nofun⟩
    have hinv : HistoryOk (s.noteTime t ch.time) := hinv
    have hheld : Held t ns (s.noteTime t ch.time) := hheld
    have hread {r es s₃} (h : Solo machine t ((s.noteTime t ch.time).setOwner .crl (some t))
        readSuperseded es r s₃) :=
      solo_spec h (hinv.setOwner .crl (some t))
        (readSuperseded_spec : Triple (writerDiscipline { caCert := cert }) t { op := .reissueCRL }
          _ _ _) (holding_of_held hheld)
    rcases hbody.bind_inv with ⟨e, hfail, rfl⟩ | ⟨⟨entries, corrupt⟩, s₃, _, _, hok, hwrite, -⟩
    · exact ⟨(hread hfail).2.crl, fun _ _ => (hread hfail).2.superseded, nofun⟩
    obtain ⟨hentries, hhold⟩ := hread hok
    rcases solo_writeSuperseded hwrite with ⟨rfl, rfl⟩ | ⟨e, rfl, rfl⟩
    · refine ⟨hhold.crl, nofun, fun _ => ⟨m, by simp, fun k => ?_⟩⟩
      rw [show s.pending = entries from (hentries _ rfl).symm]
      exact bears_append (dueNumber_eq_some.mpr (normaliseSerial_serialHexStr hm))
    · exact ⟨hhold.crl, fun _ _ => hhold.superseded, nofun⟩

/-- **Retiring a serial**: it is put away, and nothing else moves; or nothing moves at all. -/
theorem solo_supersedeReplacedAfter {serial : Text} {r : Except Failure Unit} (hinv : HistoryOk s)
    (hheld : Held t ns s)
    (h : Solo machine t s (supersedeReplacedAfter ca subject serial after) es r s') :
    (∀ e, r = .error e → s'.crl = s.crl ∧ s'.superseded = s.superseded) ∧
      (r = .ok () → ∃ m, retiredNumber after serial = some m ∧ Retired ca.caCert after m s s') := by
  unfold supersedeReplacedAfter at h
  unfold retiredNumber
  split at h
  · next hafter =>
    obtain ⟨hsup, herr, hok⟩ := solo_revokeAtOnce hinv hheld h
    refine ⟨fun e he => ⟨herr e he, hsup⟩, fun hr => ?_⟩
    obtain ⟨m, hm, hlists⟩ := hok hr
    refine ⟨m, by rw [if_pos hafter, hm], fun k => ?_, fun k => ?_⟩
    · rw [State.listed, hlists k]
      simp [hafter, State.listed]
    · rw [State.pending, hsup]
      simp [State.pending, not_lt.mpr hafter]
  · next hafter =>
    obtain ⟨hcrl, herr, hok⟩ := solo_recordSuperseded ca.caCert hinv hheld h
    refine ⟨fun e he => ⟨hcrl, herr e he⟩, fun hr => ?_⟩
    obtain ⟨m, hm, hpending⟩ := hok hr
    refine ⟨m, by rw [if_neg hafter, hm], fun k => ?_, fun k => ?_⟩
    · rw [State.listed, hcrl]
      simp [hafter, State.listed]
    · rw [hpending k]
      simp [not_le.mp hafter]

/-! ### The renewals -/

/-- What a renewal does that retires `serial`, or nothing where there is none. -/
def RetiresSerial (ca : CA) (serial : Option Text) (s s' : State) : Prop :=
  match serial with
  | none => s'.crl = s.crl ∧ s'.superseded = s.superseded
  | some serial => ∃ m, retiredNumber ca.supersedeAfter serial = some m ∧
      Retired ca.caCert ca.supersedeAfter m s s'

theorem RetiresSerial.congr {serial : Option Text} {u u' : State} (h : RetiresSerial ca serial s s')
    (hcrl : s.crl = u.crl) (hsup : s.superseded = u.superseded) (hcrl' : s'.crl = u'.crl)
    (hsup' : s'.superseded = u'.superseded) : RetiresSerial ca serial u u' := by
  cases serial with
  | none => exact ⟨hcrl'.symm.trans (h.1.trans hcrl), hsup'.symm.trans (h.2.trans hsup)⟩
  | some serial =>
    obtain ⟨m, hm, hlisted, hpending⟩ := h
    refine ⟨m, hm, fun k => ?_, fun k => ?_⟩
    · rw [State.listed, State.listed, ← hcrl, ← hcrl']
      exact hlisted k
    · rw [State.pending, State.pending, ← hsup, ← hsup']
      exact hpending k

theorem solo_latestSerialIfAny {found : Option Text}
    (h : Solo machine t s (latestSerialIfAny subject) es (.ok found) s') :
    found = latestSerial s.inventory subject := by
  obtain ⟨ch, a, s₁, es₁, hex, hrest, -⟩ := Solo.call_inv h
  cases hex
  simp only [Prog.ret_bind] at hrest
  split at hrest
  · next serial hok =>
    obtain ⟨-, hfound, -⟩ := Solo.ret_inv hrest
    rw [readOutcome_eq_ok hok, Except.ok.inj hfound]
  · next hnone =>
    obtain ⟨-, hfound, -⟩ := Solo.ret_inv hrest
    rw [readOutcome_eq_notExist hnone, Except.ok.inj hfound]
  · obtain ⟨-, he, -⟩ := Solo.fail_inv hrest
    cases he

/-- The last step of a renewal. -/
theorem solo_retire {serial : Text} {certPEM : CertBlob}
    (hinv : HistoryOk s) (hheld : Held t ns s)
    (h : Solo machine t s
      (((supersedeReplaced ca subject serial).attempt : Prog (Except Failure Unit)).bind fun r =>
        .ret { certificate := certPEM, retireError := errorOf r }) es (.ok r) s')
    (hr : r.retireError = none) : RetiresSerial ca (some serial) s s' := by
  obtain ⟨r', s₁, es₁, es₂, hsup, hret, -⟩ := Solo.attempt_bind_inv h
  obtain ⟨-, hok, rfl⟩ := Solo.ret_inv hret
  obtain rfl := Except.ok.inj hok
  cases r' with
  | error e => cases hr
  | ok _ => exact (solo_supersedeReplacedAfter hinv hheld hsup).2 rfl

/-- `Renew` retires the newest serial of the inventory. -/
theorem solo_renewLocked {presentedCert : Certificate} {pubKey : PublicKey} (hinv : HistoryOk s)
    (hheld : Held t ns s)
    (h : Solo machine t s (renewLocked ca subject presentedCert pubKey) es (.ok r) s')
    (hr : r.retireError = none) : RetiresSerial ca (latestSerial s.inventory subject) s s' := by
  obtain ⟨_, s₁, _, _, hrefuse, h₁, -⟩ := Solo.bind_inv_ok h
  obtain ⟨oldSerial, s₂, _, _, hlatest, h₂, -⟩ := Solo.bind_inv_ok h₁
  obtain ⟨certPEM, s₃, _, _, hissue, h₃, -⟩ := Solo.bind_inv_ok h₂
  obtain ⟨hcrl₁, hcerts₁⟩ := solo_local hrefuse (local_refuseIfRevoked ca presentedCert)
  obtain ⟨hcrl₂, -⟩ := solo_local hlatest (always_local (reads_latestSerialIfAny subject))
  have hcrl₃ := solo_sameCRL hissue (quiet_withMutex (Prog.only_bind
    (quiet_issueLeafLocked _ _ _ _ _ _ _ _) fun _ => always_cmd_bind trivial fun _ => trivial))
  have hcrl := (hcrl₁.trans hcrl₂).trans hcrl₃
  have hinv₃ := solo_historyOk hissue (solo_historyOk hlatest (solo_historyOk hrefuse hinv))
  rw [← hcerts₁.inventory, ← solo_latestSerialIfAny hlatest]
  cases oldSerial with
  | none =>
    obtain ⟨-, -, rfl⟩ := Solo.ret_inv h₃
    exact ⟨hcrl.crl, hcrl.superseded⟩
  | some serial =>
    exact (solo_retire hinv₃ (aboutCRL_held ns s s₃ hcrl hheld) h₃ hr).congr hcrl.crl
      hcrl.superseded rfl rfl

/-- `AutoRenew` retires the serial of the presented certificate, if it is set to. -/
theorem solo_autoRenewLocked {presentedCert : Certificate} (hinv : HistoryOk s)
    (hheld : Held t ns s)
    (h : Solo machine t s (autoRenewLocked ca subject presentedCert) es (.ok r) s')
    (hr : r.retireError = none) :
    RetiresSerial ca (if ca.revokeOnAutoRenew then some (serialHexStr presentedCert.serialNumber)
      else none) s s' := by
  obtain ⟨_, s₁, _, _, hrefuse, h₁, -⟩ := Solo.bind_inv_ok h
  obtain ⟨certPEM, s₂, _, _, hissue, h₂, -⟩ := Solo.bind_inv_ok h₁
  have hcrl₁ := solo_sameCRL hrefuse (always_quiet (local_refuseIfRevoked ca presentedCert))
  have hcrl := hcrl₁.trans (solo_sameCRL hissue (quiet_withMutex
    (quiet_issueLeafLocked _ _ _ _ _ _ _ _)))
  have hinv₂ := solo_historyOk hissue (solo_historyOk hrefuse hinv)
  split at h₂
  · next hoff =>
    obtain ⟨-, -, rfl⟩ := Solo.ret_inv h₂
    rw [if_neg hoff]
    exact ⟨hcrl.crl, hcrl.superseded⟩
  · next hon =>
    rw [if_pos (not_not.mp hon)]
    exact (solo_retire hinv₂ (aboutCRL_held ns s s₂ hcrl hheld) h₂ hr).congr hcrl.crl
      hcrl.superseded rfl rfl

/-- The serial a renewal retires, given the inventory it finds: the newest of the subject for
`Renew`, that of the presented certificate for `AutoRenew`, if it is set to. -/
def Job.replaces (j : Job) (inventory : List InventoryEntry) : Option Text :=
  match j.op with
  | .renew subject _ _ => latestSerial inventory subject
  | .autoRenew (some c) =>
    if j.config.revokeOnAutoRenew then some (serialHexStr c.serialNumber) else none
  | _ => none

/-- A section under a lock retires what its body does. -/
theorem RetiresSerial.withLock {n : LockName} {body : Prog Renewal} {target : Option Text}
    (h : Solo machine t s (withLock n body) es (.ok r) s')
    (hbody : ∀ {u es}, Solo machine t (s.setOwner n (some t)) body es (.ok r) u →
      RetiresSerial ca target (s.setOwner n (some t)) u) : RetiresSerial ca target s s' := by
  obtain ⟨hlock, -⟩ | ⟨s₁, _, hrun, rfl, -⟩ := solo_withLock h
  · cases hlock
  · exact (hbody hrun).congr rfl rfl rfl rfl

variable {c : Certificate}

theorem solo_renew {csrPEM : RequestBlob} (hinv : HistoryOk s) (hheld : Held t [] s)
    (h : Solo machine t s (renew ca subject csrPEM (some c)) es (.ok r) s')
    (hr : r.retireError = none) : RetiresSerial ca (latestSerial s.inventory subject) s s' := by
  unfold renew at h
  simp only at h
  split at h
  · obtain ⟨_, s₁, _, _, hrefuse, hrest, -⟩ := Solo.bind_inv_ok h
    obtain ⟨hcrl, hcerts⟩ := solo_local hrefuse (local_refuseIfRevoked ca c)
    have hlocked : ∀ {key es}, Solo machine t s₁ (withLock (.subject subject)
        (renewLocked ca subject c key)) es (.ok r) s' →
        RetiresSerial ca (latestSerial s.inventory subject) s s' := by
      intro key es hrun
      refine (RetiresSerial.withLock hrun fun hbody => ?_).congr hcrl.crl hcrl.superseded rfl rfl
      rw [← hcerts.inventory]
      exact solo_renewLocked ((solo_historyOk hrefuse hinv).setOwner _ _)
        (aboutCRL_held [] s s₁ hcrl hheld).lock hbody hr
    split at hrest
    · exact absurd hrest Solo.not_ok_of_fail
    · split at hrest
      · exact absurd hrest Solo.not_ok_of_fail
      · split at hrest
        · exact absurd hrest Solo.not_ok_of_fail
        · split at hrest
          · exact absurd hrest Solo.not_ok_of_fail
          · split at hrest
            · exact absurd hrest Solo.not_ok_of_fail
            · exact hlocked hrest
  · exact absurd h Solo.not_ok_of_fail

theorem solo_autoRenew (hinv : HistoryOk s) (hheld : Held t [] s)
    (h : Solo machine t s (autoRenew ca (some c)) es (.ok r) s') (hr : r.retireError = none) :
    RetiresSerial ca (if ca.revokeOnAutoRenew then some (serialHexStr c.serialNumber) else none)
      s s' := by
  unfold autoRenew at h
  simp only at h
  split at h
  · split at h
    · obtain ⟨_, s₁, _, _, hrefuse, hrun, -⟩ := Solo.bind_inv_ok h
      have hcrl := solo_sameCRL hrefuse (always_quiet (local_refuseIfRevoked ca c))
      refine (RetiresSerial.withLock hrun fun hbody => ?_).congr hcrl.crl hcrl.superseded rfl rfl
      exact solo_autoRenewLocked ((solo_historyOk hrefuse hinv).setOwner _ _)
        (aboutCRL_held [] s s₁ hcrl hheld).lock hbody hr
    · exact absurd h Solo.not_ok_of_fail
  · exact absurd h Solo.not_ok_of_fail

/-- **What a renewal that succeeds retires.** -/
theorem solo_renewal {j : Job} (hinv : HistoryOk s)
    (hheld : Held t [] s) (hc : j.op.presented = some c)
    (h : Solo machine t s (operation { toConfig := j.config, caCert := cert } j.op) es
      (.ok (.renewal r)) s') (hr : r.retireError = none) :
    RetiresSerial { toConfig := j.config, caCert := cert } (j.replaces s.inventory) s s' := by
  obtain ⟨op, config⟩ := j
  cases op with
  | renew subject csrPEM presented =>
    obtain rfl : presented = some c := hc
    obtain ⟨r', s₁, _, _, hrenew, hret, -⟩ := Solo.bind_inv_ok h
    obtain ⟨-, hok, rfl⟩ := Solo.ret_inv hret
    obtain rfl := Result.renewal.inj (Except.ok.inj hok)
    exact solo_renew hinv hheld hrenew hr
  | autoRenew presented =>
    obtain rfl : presented = some c := hc
    obtain ⟨r', s₁, _, _, hrenew, hret, -⟩ := Solo.bind_inv_ok h
    obtain ⟨-, hok, rfl⟩ := Solo.ret_inv hret
    obtain rfl := Result.renewal.inj (Except.ok.inj hok)
    exact solo_autoRenew hinv hheld hrenew hr
  | _ => cases hc

/-! ### Every reachable state -/

/-- A certificate of the subject of `c` other than `c`, not expired at `now`, has the serial
`m`, going by the inventory. -/
def OtherLive (c : Certificate) (now : Time) (s : State) (m : ℤ) : Prop :=
  m ≠ c.serialNumber ∧ ∃ e ∈ s.inventory, e.subject = c.subject.commonName ∧
    setString16 e.serial = some m ∧ keepEntry now e = true

/-- **The renewal from `s` to `s'` has retired the presented certificate `c`**, which is on the
stored own CRL or on the list of superseded certificates now, and it has put the serial of no
other live certificate of the subject on either. -/
def RetiredPresented (cert c : Certificate) (now : Time) (s s' : State) : Prop :=
  Kept cert c.serialNumber s' ∧ ∀ m, OtherLive c now s m →
    (m ∈ s'.listed cert → m ∈ s.listed cert) ∧ (Bears s'.pending m → Bears s.pending m)

/-- **The renewal retires what is presented**: the serial it is going to retire in the state
`s` is that of `c`; or `c` is on the CRL already, and what it retires instead is no other live
certificate or has been put away before. -/
def AimsAtPresented (cert : Certificate) (j : Job) (c : Certificate) (now : Time) (s : State) :
    Prop :=
  match (j.replaces s.inventory).bind (retiredNumber j.config.supersedeAfter) with
  | none => Kept cert c.serialNumber s
  | some m => m = c.serialNumber ∨
      Kept cert c.serialNumber s ∧ (OtherLive c now s m → PutAway cert j.config.supersedeAfter m s)

theorem Retired.kept {m k : ℤ} (h : Retired cert after m s s') :
    Kept cert k s' ↔ k = m ∨ Kept cert k s := by
  have hafter : after ≤ 0 ∨ 0 < after := le_or_gt _ _
  simp only [Kept, h.listed k, h.pending k]
  tauto

theorem Retired.putAway {m : ℤ} (h : Retired cert after m s s') :
    ((m ∈ s'.listed cert → m ∈ s.listed cert) ∧ (Bears s'.pending m → Bears s.pending m)) ↔
      PutAway cert after m s := by
  rw [h.listed m, h.pending m, PutAway]
  split
  · next hafter => simp [hafter, not_lt.mpr hafter]
  · next hafter => simp [hafter, not_le.mp hafter]

theorem Retired.of_ne {m k : ℤ} (h : Retired cert after m s s') (hne : k ≠ m) :
    (k ∈ s'.listed cert → k ∈ s.listed cert) ∧ (Bears s'.pending k → Bears s.pending k) := by
  rw [h.listed k, h.pending k]
  simp [hne]

/-- **The renewal retired what was presented exactly if it aimed at it.** -/
theorem RetiresSerial.presented {j : Job} {now : Time}
    (h : RetiresSerial { toConfig := j.config, caCert := cert } (j.replaces s.inventory) s s') :
    RetiredPresented cert c now s s' ↔ AimsAtPresented cert j c now s := by
  unfold RetiredPresented AimsAtPresented
  cases htarget : j.replaces s.inventory with
  | none =>
    rw [htarget] at h
    have hlisted : s'.listed cert = s.listed cert := by rw [State.listed, h.1]; rfl
    have hpending : s'.pending = s.pending := by rw [State.pending, h.2]; rfl
    simp [Kept, hlisted, hpending]
  | some serial =>
    rw [htarget] at h
    obtain ⟨m, hm, hretired⟩ := h
    rw [Option.bind_some, hm]
    simp only [hretired.kept]
    rcases eq_or_ne m c.serialNumber with rfl | hne
    · -- Nothing but the presented serial is put away.
      exact iff_of_true ⟨Or.inl rfl, fun k hk => hretired.of_ne hk.1⟩ (Or.inl rfl)
    · constructor
      · rintro ⟨hkept, hothers⟩
        exact Or.inr ⟨hkept.resolve_left hne.symm, fun hlive =>
          hretired.putAway.mp (hothers m hlive)⟩
      · rintro (heq | ⟨hkept, hput⟩)
        · exact absurd heq hne
        · refine ⟨Or.inr hkept, fun k hk => ?_⟩
          rcases eq_or_ne k m with rfl | hkm
          · exact hretired.putAway.mpr (hput hk)
          · exact hretired.of_ne hkm

/-- **When a renewal retires the certificate that was presented.** In every state `p` that a
cluster reaches, whatever its history, let one thread run a renewal that presents `c` to its
end: the renewal has succeeded and its retirement reports no error. Then it has retired `c`,
and no other certificate of the subject that is live at `now`, if and only if the serial that
it takes for the one to be replaced, going by the inventory it finds, is that of `c` – or it
made no difference. -/
theorem renewal_retires_presented {s₀ : State} (h₀ : s₀.AtRest) {ls steps : List (Event cert)}
    {p q : Cluster cert} (hp : (Pool.initial s₀).run ls = some p) {j : Job} {c : Certificate}
    (hc : j.op.presented = some c) (hsteps : Pool.Alone t steps)
    (hq : p.run (.start t j :: steps) = some q) {r : Renewal}
    (hdone : q.thread t = .running j (.ret (.renewal r))) (hr : r.retireError = none)
    (now : Time) :
    RetiredPresented cert c now p.shared q.shared ↔ AimsAtPresented cert j c now p.shared := by
  have hsound := sound_of_run h₀ hp
  obtain ⟨p', hstart, hrun⟩ := Pool.run_cons (M := machine).mp hq
  obtain ⟨u, i, hl, hidle, rfl⟩ | ⟨_, _, _, _, _, _, _, hl, -⟩ | ⟨_, _, _, hl, -⟩ :=
    Pool.next_cases hstart
  · cases hl
    have hheld : Held t [] p.shared := by
      have := hsound.2 t
      rwa [hidle] at this
    obtain ⟨-, es, hsolo⟩ := Pool.solo_of_run (r := .ok (Result.renewal r)) hsteps hrun
      (Function.update_self _ _ _) hdone
    exact (solo_renewal hsound.1.1 hheld hc hsolo hr).presented
  · cases hl
  · cases hl

/-! A cluster in which the node `n` enrols, and then renews. -/

/-- The storage before: an empty list, and the request of the node. -/
def enrolState : State :=
  { crl := some (encodeCRLChain [sampleCRL])
    requests := fun name => if name = ['n'] then
      some { parsed := some { subject := { commonName := ['n'] }, publicKey := { id := 7 } } }
      else none }

theorem enrolState_atRest : enrolState.AtRest :=
  ⟨fun _ => rfl, ⟨le_rfl, fun _ => le_rfl⟩, fun _ => rfl⟩

/-- One thread starts a job and takes a number of steps in which nothing fails and `number` is
what is drawn. -/
def jobSteps (j : Job) (number steps : ℕ) : List (Event sampleCert) :=
  .start ⟨0, 0⟩ j :: List.replicate steps (.step ⟨0, 0⟩ { number := number })

/-- The request of the node is signed: its certificate has the serial 5. -/
def enrolment : List (Event sampleCert) :=
  jobSteps { op := .signWithTTL ['n'] 0 } 5 13 ++ [.finish ⟨0, 0⟩]

/-- The certificate of the node. -/
def enrolledLeaf : Certificate :=
  { CA.leafTemplate { caCert := sampleCert } { commonName := ['n'] } { id := 7 } {} [] [] 0 5 0 with
    signature := 5 }

/-- What the renewal of the first thread is about to report, and for which job. -/
def renewalOf (p : Cluster sampleCert) : Option (Job × Renewal) :=
  match p.thread ⟨0, 0⟩ with
  | .running j (.ret (.renewal r)) => some (j, r)
  | _ => none

theorem thread_of_renewalOf {p : Cluster sampleCert} {j : Job} (h : renewalOf p = some (j, r)) :
    p.thread ⟨0, 0⟩ = .running j (.ret (.renewal r)) := by
  unfold renewalOf at h
  split at h
  · next hth =>
    cases h
    exact hth
  · cases h

/-- The node renews automatically, with its predecessors to be revoked. -/
def autoRenewal : Job :=
  { op := .autoRenew (some enrolledLeaf), config := { revokeOnAutoRenew := true } }

/-- An automatic renewal retires what is presented. -/
theorem renewal_retires_presented_sample : ∃ p q : Cluster sampleCert, ∃ r,
    (Pool.initial enrolState).run enrolment = some p ∧
      p.shared.certs ['n'] = some { parsed := some enrolledLeaf } ∧
      p.run (jobSteps autoRenewal 12 38) = some q ∧ renewalOf q = some (autoRenewal, r) ∧
      RetiredPresented sampleCert enrolledLeaf 0 p.shared q.shared := by
  have hrun : ((Pool.initial enrolState).run enrolment).map (fun p => (p.shared.certs ['n'],
      (p.run (jobSteps autoRenewal 12 38)).map fun q =>
        (renewalOf q).map fun x => (x.1, x.2.retireError))) =
      some (some { parsed := some enrolledLeaf }, some (some (autoRenewal, none))) := by
    decide +kernel
  obtain ⟨p, hp, hv⟩ := Option.map_eq_some_iff.mp hrun
  obtain ⟨hcert, hv⟩ := Prod.mk.inj hv
  obtain ⟨q, hq, hv⟩ := Option.map_eq_some_iff.mp hv
  obtain ⟨⟨j, r⟩, hrenewal, hv⟩ := Option.map_eq_some_iff.mp hv
  obtain ⟨rfl, hr⟩ := Prod.mk.inj hv
  refine ⟨p, q, r, hp, hcert, hq, hrenewal, ?_⟩
  refine (renewal_retires_presented enrolState_atRest hp (c := enrolledLeaf) rfl ?_ hq
    (thread_of_renewalOf hrenewal) hr 0).mpr (Or.inl rfl)
  exact fun l hl => ⟨_, List.eq_of_mem_replicate hl⟩

/-- The node has renewed automatically without its predecessor being revoked, and has a second
certificate, with the serial 9. -/
def secondLeaf : List (Event sampleCert) :=
  jobSteps { op := .autoRenew (some enrolledLeaf) } 9 25 ++ [.finish ⟨0, 0⟩]

/-- The node renews once more with its first certificate, under a new key. -/
def rekey : Job :=
  { op := .renew ['n']
      { parsed := some { subject := { commonName := ['n'] }, publicKey := { id := 8 } } }
      (some enrolledLeaf) }

set_option synthInstance.maxSize 512 in
/-- **`Renew` can retire another certificate than the one presented**: the newer certificate of
the node is revoked, and the one it presented is not. -/
theorem renew_retires_another : ∃ p q : Cluster sampleCert, ∃ r,
    (Pool.initial enrolState).run (enrolment ++ secondLeaf) = some p ∧
      p.run (jobSteps rekey 12 40) = some q ∧ renewalOf q = some (rekey, r) ∧
      r.retireError = none ∧ OtherLive enrolledLeaf 0 p.shared 9 ∧
      q.shared.listed sampleCert = [9] ∧
      ¬RetiredPresented sampleCert enrolledLeaf 0 p.shared q.shared := by
  have hrun : ((Pool.initial enrolState).run (enrolment ++ secondLeaf)).map (fun p =>
      (p.shared.inventory.any fun e => decide (e.subject = ['n']) &&
        decide (setString16 e.serial = some 9) && keepEntry 0 e,
      (p.run (jobSteps rekey 12 40)).map fun q =>
        (q.shared.listed sampleCert, q.shared.pending,
          (renewalOf q).map fun x => (x.1, x.2.retireError)))) =
      some (true, some ([9], [], some (rekey, none))) := by
    decide +kernel
  obtain ⟨p, hp, hv⟩ := Option.map_eq_some_iff.mp hrun
  obtain ⟨hlive, hv⟩ := Prod.mk.inj hv
  obtain ⟨q, hq, hv⟩ := Option.map_eq_some_iff.mp hv
  obtain ⟨hlisted, hv⟩ := Prod.mk.inj hv
  obtain ⟨hpending, hv⟩ := Prod.mk.inj hv
  obtain ⟨⟨j, r⟩, hrenewal, hv⟩ := Option.map_eq_some_iff.mp hv
  obtain ⟨rfl, hr⟩ := Prod.mk.inj hv
  refine ⟨p, q, r, hp, hq, hrenewal, hr, ⟨by decide, ?_⟩, hlisted, ?_⟩
  · obtain ⟨e, he, hlive⟩ := List.any_eq_true.mp hlive
    simp only [Bool.and_eq_true, decide_eq_true_eq] at hlive
    exact ⟨e, he, hlive.1.1, hlive.1.2, hlive.2⟩
  · rintro ⟨hkept, -⟩
    rcases hkept with ⟨e, he, -⟩ | hmem
    · rw [hpending] at he
      cases he
    · rw [hlisted] at hmem
      exact absurd hmem (by decide)

end OpenvoxCa.Ca

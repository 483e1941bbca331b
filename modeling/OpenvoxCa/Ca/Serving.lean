import OpenvoxCa.Ca.Signing

/-!
# The operations of a serving CA

What the threads of a cluster run: any operation of `Op`, by any thread of any replica, under any
settings – those of one replica may differ from those of another, and may change from one operation
to the next. Only the CA certificate is the cluster's (`serving`).
-/

namespace OpenvoxCa.Ca

inductive Op
  | revoke (subject : Text)
  | revokeSerial (serial : Text) (force : Bool)
  | recordSuperseded (subject serial : Text) (after : Duration)
  | reconcileSuperseded
  | reissueCRL
  | refreshCRLIfDue (refreshBefore : Duration)
  | refreshCRLChainFile
  | cleanupExpiredCerts (retain : Duration)
  | syncCRLCache
  | signWithTTL (subject : Text) (ttl : Duration)
  | renew (subject : Text) (csrPEM : RequestBlob) (presented : Option Certificate)
  | autoRenew (presented : Option Certificate)
  | clean (subject : Text)
  | importCertificate (subject : Text) (certPEM : CertBlob) (more : Bool)
  deriving DecidableEq

inductive Result
  | done
  | flag (b : Bool)
  | count (n : ℕ) (err : Option Failure)
  | certificate (blob : CertBlob)
  | renewal (r : Renewal)
  | imported (r : ImportResult)
  deriving DecidableEq, Repr

def operation (ca : CA) : Op → Prog Result
  | .revoke subject => do revoke ca subject; return .done
  | .revokeSerial serial force => do revokeSerial ca serial force; return .done
  | .recordSuperseded subject serial after => do
    recordSuperseded subject serial after
    return .done
  | .reconcileSuperseded => do
    let r ← reconcileSuperseded ca
    return .count r.1 r.2
  | .reissueCRL => do reissueCRL ca; return .done
  | .refreshCRLIfDue d => do return .flag (← refreshCRLIfDue ca d)
  | .refreshCRLChainFile => do return .flag (← refreshCRLChainFile ca)
  | .cleanupExpiredCerts retain => do
    let r ← cleanupExpiredCerts ca retain
    return .count r.1 r.2
  | .syncCRLCache => do return .flag (← syncCRLCache ca)
  | .signWithTTL subject ttl => do return .certificate (← signWithTTL ca subject ttl)
  | .renew subject csrPEM presented => do return .renewal (← renew ca subject csrPEM presented)
  | .autoRenew presented => do return .renewal (← autoRenew ca presented)
  | .clean subject => do clean ca subject; return .done
  | .importCertificate subject certPEM more => do
    return .imported (← importCertificate ca subject certPEM more)

/-- A job: an operation, and the settings it runs under. -/
structure Job where
  op : Op
  config : Config := {}
  deriving DecidableEq

/-- **The workload of a serving cluster** with CA certificate `caCert`. -/
abbrev serving (caCert : Certificate) : Conc.Workload interface Tid where
  Job := Job
  Err := Failure
  Res := Result
  body := fun _ j => operation { toConfig := j.config, caCert := caCert } j.op

abbrev Cluster (caCert : Certificate) := Conc.Pool machine (serving caCert)

abbrev Event (caCert : Certificate) := Conc.Label machine (serving caCert)

end OpenvoxCa.Ca

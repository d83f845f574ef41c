import Baffle.Lib.Text
import Baffle.Lib.SortedMap

/-! Session policy types of the client crate (`crates/baffle-client/src/lib.rs`). -/

namespace Baffle

inductive CredentialMode where
  | inject
  | substitute
  | disabled
deriving DecidableEq, Repr

inductive UnmatchedHostPolicy where
  | deny
  | tunnel
deriving DecidableEq, Repr

inductive RuleMode where
  | tunnel
  | intercept
deriving DecidableEq, Repr

inductive InjectionFormat where
  | raw
  | bearer
  | basicPassword
deriving DecidableEq, Repr

structure HeaderInjection where
  header : Text
  secret : Text
  format : InjectionFormat
  username : Option Text
deriving DecidableEq

structure HostRule where
  host : Text
  mode : RuleMode
  ports : List UInt16
  paths : List Text
  inject : List HeaderInjection
deriving DecidableEq

structure SessionConfig where
  persistent : Bool
  socketName : Option Text
  unmatched : UnmatchedHostPolicy
  defaultCredentialMode : Option CredentialMode
  credentialModes : SortedMap Text CredentialMode
  rules : List HostRule
deriving DecidableEq

/-- A per-secret override wins over the session default; the default default is `inject`. -/
def SessionConfig.effectiveCredentialMode (session : SessionConfig) (secret : Text) :
    CredentialMode :=
  ((session.credentialModes.get secret).or session.defaultCredentialMode).getD .inject

end Baffle

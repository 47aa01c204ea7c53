import Writz.Node.Buffer

/-!
# Requests to Esplora

`bitcoin/esplora.ts`: one request goes to the primary host with retries, and then to the fallback host
while the failures say that the upstream is unavailable.
-/

namespace Writz.Relayer

open Node

/-- What a request to a host throws. -/
inductive EsploraFailure where
  /-- `EsploraError`. -/
  | status (status : Nat) (body : Text)
  /-- `TypeError`, a network error. -/
  | network
  /-- `AbortError`, a timeout. -/
  | timeout
  /-- Any other error, such as a malformed body. -/
  | other (message : Text)
  deriving DecidableEq

/-- A failure that says the upstream is unavailable rather than that the request was wrong. -/
def isUpstreamUnavailable : EsploraFailure → Bool
  | .status n _ => decide (n = 429) || decide (500 ≤ n)
  | .network | .timeout => true
  | .other _ => false

def isRetryableOnSameHost (e : EsploraFailure) : Bool :=
  isUpstreamUnavailable e && !decide (e = .timeout)

structure EsploraClientOptions where
  /-- Retries per host on 429, 5xx and network errors. -/
  retries : Nat
  /-- Whether there is a `fallbackBaseUrl`. -/
  fallback : Bool

/-- Where a request is: the retries left on its host, and whether the fallback host is left. -/
structure Attempts where
  retries : Nat
  fallback : Bool
  deriving DecidableEq

def EsploraClientOptions.start (options : EsploraClientOptions) : Attempts where
  retries := options.retries
  fallback := options.fallback

/-- What `request` does after an attempt has failed: another attempt, or the failure it throws. -/
def EsploraClientOptions.next (options : EsploraClientOptions) (attempts : Attempts) (e : EsploraFailure) :
    Except EsploraFailure Attempts :=
  if isRetryableOnSameHost e = true ∧ 0 < attempts.retries then
    .ok { attempts with retries := attempts.retries - 1 }
  else if isUpstreamUnavailable e = true ∧ attempts.fallback = true then
    .ok { retries := options.retries, fallback := false }
  else
    .error e

/-- An entry of an address's UTXO listing. -/
structure AddressUtxo where
  txid : Text
  vout : Nat
  value : Nat
  confirmed : Bool
  deriving DecidableEq

end Writz.Relayer

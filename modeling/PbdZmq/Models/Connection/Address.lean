import PbdZmq.Core.Decimal
import PbdZmq.Core.Split

/-!
# The text of an endpoint

`address` pastes transport, host and port. `match.arg` accepts the unique start of a transport,
but the text is pasted as it was given, in lower case. Host and port are recovered from every
endpoint, since no start of a transport has a colon and neither has a port.
-/

namespace PbdZmq.Connection

/-- `transports`. -/
def transports : List Text := ["tcp", "inproc", "ipc", "pgm", "epgm"].map String.toList

/-- `pmatch` of one text: itself, or the only choice that it starts. -/
def pmatch (arg : Text) (choices : List Text) : Option Text :=
  if arg = [] then none
  else if arg ∈ choices then some arg
  else
    match choices.filter fun choice => arg.isPrefixOf choice with
    | [choice] => some choice
    | _ => none

/-- The warnings and the result of `address`, where `lower` is `tolower` of a character. A
transport that `match.arg` refuses is an R error, and so is a missing port. -/
def address (lower : Char → Char) (host : Text) (port : Option Nat) (transport : Text) :
    Option (List Text × Text) :=
  let transport := transport.map lower
  (pmatch transport transports).bind fun _ =>
    if transport = "ipc".toList then
      some (if port.isSome then ["Ignoring specified port for ipc transport.".toList] else [],
        transport ++ "://".toList ++ host)
    else port.map fun port => ([], transport ++ "://".toList ++ (host ++ ':' :: decimal port))

/-- Scheme, host and port of an endpoint. -/
def parts (endpoint : Text) : Option (Text × Text × Option Text) :=
  (splitFirst "://".toList endpoint).bind fun uri =>
    if uri.1 = "ipc".toList then some (uri.1, uri.2, none)
    else (splitLast ':' uri.2).map fun r => (uri.1, r.1, some r.2)

/-- What is left of the port in an endpoint. -/
def portPart (scheme : Text) (port : Nat) : Option Text :=
  if scheme = "ipc".toList then none else some (decimal port)

/-- `address` fails, or its endpoint has the scheme of a transport, host and port are recovered
from it, and no call with others returns it. -/
def FailsOrRecovered (lower : Char → Char) (host : Text) (port : Nat) (transport : Text) : Prop :=
  ∀ warnings endpoint, address lower host (some port) transport = some (warnings, endpoint) →
    (∃ scheme ∈ transports, parts endpoint = some (scheme, host, portPart scheme port)) ∧
    ∀ warnings' host' port' transport',
      address lower host' (some port') transport' = some (warnings', endpoint) →
      transport'.map lower = transport.map lower ∧ host' = host ∧
        (transport.map lower ≠ "ipc".toList → port' = port)

/-- A text is accepted for a transport that is longer. -/
def Abbreviates (transport : Text) : Prop :=
  transport ∉ transports ∧ (pmatch transport transports).isSome = true

/-- What is accepted starts a choice. -/
theorem prefix_of_pmatch {arg choice : Text} {choices : List Text}
    (h : pmatch arg choices = some choice) : choice ∈ choices ∧ arg <+: choice := by
  rw [pmatch] at h
  split at h
  · simp at h
  · split at h
    · rename_i hmem
      obtain rfl := Option.some.inj h
      exact ⟨hmem, List.prefix_rfl⟩
    · split at h
      · rename_i choice' hfilter
        obtain rfl := Option.some.inj h
        have hmem : choice' ∈ choices.filter fun choice => arg.isPrefixOf choice := by
          rw [hfilter]
          exact List.mem_singleton_self choice'
        rw [List.mem_filter] at hmem
        exact ⟨hmem.1, List.isPrefixOf_iff_prefix.mp hmem.2⟩
      · simp at h

/-- No start of a transport has a colon. -/
theorem colon_notMem_of_pmatch {transport choice : Text}
    (h : pmatch transport transports = some choice) : ':' ∉ transport := by
  have hall : ∀ t ∈ transports, ':' ∉ t := by decide
  obtain ⟨hmem, hstart⟩ := prefix_of_pmatch h
  exact fun hcolon => hall choice hmem (hstart.subset hcolon)

/-- No port has a colon. -/
theorem colon_notMem_decimal (port : Nat) : ':' ∉ decimal port := fun hmem =>
  absurd (isDigit_of_mem_decimal hmem) (by decide)

/-- Every endpoint is taken apart into what was pasted. -/
theorem parts_of_address {lower : Char → Char} {host : Text} {port : Nat} {transport : Text}
    {warnings : List Text} {endpoint : Text}
    (h : address lower host (some port) transport = some (warnings, endpoint)) :
    parts endpoint = some (transport.map lower, host, portPart (transport.map lower) port) ∧
      (pmatch (transport.map lower) transports).isSome = true := by
  obtain ⟨choice, hchoice, hresult⟩ := Option.bind_eq_some_iff.mp h
  have hcolon := colon_notMem_of_pmatch hchoice
  have hsplit : ∀ behind, splitFirst "://".toList
      (transport.map lower ++ "://".toList ++ behind) = some (transport.map lower, behind) :=
    splitFirst_append hcolon
  refine ⟨?_, by rw [hchoice]; rfl⟩
  by_cases hipc : transport.map lower = "ipc".toList
  · rw [if_pos hipc, Option.some.injEq, Prod.mk.injEq] at hresult
    rw [← hresult.2, parts, hsplit, Option.bind_some, if_pos hipc, portPart, if_pos hipc]
  · rw [if_neg hipc, Option.map_some, Option.some.injEq, Prod.mk.injEq] at hresult
    rw [← hresult.2, parts, hsplit, Option.bind_some, if_neg hipc,
      splitLast_append (colon_notMem_decimal port), Option.map_some, portPart, if_neg hipc]

/-- Calls that return one endpoint have one scheme and host, and outside of ipc one port. -/
theorem address_injective {lower : Char → Char} {host host' : Text} {port port' : Nat}
    {transport transport' : Text} {warnings warnings' : List Text} {endpoint : Text}
    (h : address lower host (some port) transport = some (warnings, endpoint))
    (h' : address lower host' (some port') transport' = some (warnings', endpoint)) :
    transport'.map lower = transport.map lower ∧ host' = host ∧
      (transport.map lower ≠ "ipc".toList → port' = port) := by
  have heq := (parts_of_address h').1.symm.trans (parts_of_address h).1
  rw [Option.some.injEq, Prod.mk.injEq, Prod.mk.injEq] at heq
  obtain ⟨hscheme, hhost, hport⟩ := heq
  refine ⟨hscheme, hhost, fun hipc => ?_⟩
  rw [portPart, portPart, hscheme, if_neg hipc, if_neg hipc, Option.some.injEq] at hport
  exact decimal_injective hport

/-- An accepted transport gives an endpoint. -/
theorem address_isSome {lower : Char → Char} {transport : Text}
    (h : (pmatch (transport.map lower) transports).isSome = true) (host : Text) (port : Nat) :
    ∃ warnings endpoint, address lower host (some port) transport = some (warnings, endpoint) := by
  obtain ⟨choice, hchoice⟩ := Option.isSome_iff_exists.mp h
  rw [address, hchoice, Option.bind_some]
  split
  · exact ⟨_, _, rfl⟩
  · exact ⟨_, _, rfl⟩

/-- `address` recovers its endpoint exactly if the transport is not abbreviated. -/
theorem failsOrRecovered_iff (lower : Char → Char) (host : Text) (port : Nat) (transport : Text) :
    FailsOrRecovered lower host port transport ↔ ¬Abbreviates (transport.map lower) := by
  constructor
  · rintro hrecovered ⟨hnot, haccepted⟩
    obtain ⟨warnings, endpoint, haddress⟩ := address_isSome haccepted host port
    obtain ⟨⟨scheme, hscheme, hparts⟩, -⟩ := hrecovered warnings endpoint haddress
    rw [(parts_of_address haddress).1, Option.some.injEq, Prod.mk.injEq] at hparts
    exact hnot (hparts.1 ▸ hscheme)
  · intro hfull warnings endpoint haddress
    obtain ⟨hparts, haccepted⟩ := parts_of_address haddress
    have hscheme : transport.map lower ∈ transports := by
      by_contra hnot
      exact hfull ⟨hnot, haccepted⟩
    exact ⟨⟨_, hscheme, hparts⟩, fun _ _ _ _ => address_injective haddress⟩

/-- The transport `t` is accepted for `tcp`, but becomes the scheme. -/
theorem scheme_t : ¬ ∀ (lower : Char → Char) (host : Text) (port : Nat) (transport : Text),
    FailsOrRecovered lower host port transport := by
  intro hall
  have haddress : address Char.toLower "h".toList (some 1) "T".toList =
      some ([], "t://h:1".toList) := by decide
  obtain ⟨⟨scheme, hscheme, hparts⟩, -⟩ := hall _ _ _ _ _ _ haddress
  have hread : parts "t://h:1".toList =
      some ("t".toList, "h".toList, some "1".toList) := by decide
  rw [hread, Option.some.injEq, Prod.mk.injEq] at hparts
  rw [← hparts.1] at hscheme
  exact absurd hscheme (by decide)

end PbdZmq.Connection

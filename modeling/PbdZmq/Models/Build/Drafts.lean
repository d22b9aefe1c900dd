import PbdZmq.Core.Decimal
import PbdZmq.Models.Build.Selection

/-!
# When the draft API is switched on

`get.zmq.cppflags` takes the version of the system library first, whichever ZeroMQ was
selected. Without a system library of version 4.3.0 it reads the `zmq.h` of the include
path that it returns, and compares the parts of that version as texts.
-/

namespace PbdZmq.Build

/-- The version of a ZeroMQ. -/
structure Version where
  /-- `ZMQ_VERSION_MAJOR`. -/
  major : Nat
  /-- `ZMQ_VERSION_MINOR`. -/
  minor : Nat

/-- libzmq >= 4.3. -/
def Version.AtLeast430 (v : Version) : Prop := 4 < v.major ∨ (v.major = 4 ∧ 3 ≤ v.minor)

instance (v : Version) : Decidable v.AtLeast430 :=
  inferInstanceAs (Decidable (4 < v.major ∨ (v.major = 4 ∧ 3 ≤ v.minor)))

/-- The lines of a `zmq.h` define both parts once, in decimal. -/
structure Version.DefinedBy (v : Version) (zmqH : List Text) : Prop where
  major : defines "ZMQ_VERSION_MAJOR".toList zmqH = [decimal v.major]
  minor : defines "ZMQ_VERSION_MINOR".toList zmqH = [decimal v.minor]

/-- The `zmq.h` of one include path. -/
def Site.zmqH (site : Site) (zmqCppflags : Text) : Option (List Text) :=
  site.scan (unquote (dropInclude zmqCppflags) ++ "/zmq.h".toList)

/-- `GET_SYSTEM_ZMQ_430`, the outcome of the third check if there is pkg-config. -/
def Inputs.getSystemZmq430 (i : Inputs) : Bool := i.pkgConfig != [] && i.system430

/-- The user names an external ZeroMQ. -/
def Inputs.NamesExternal (i : Inputs) : Prop := i.zmqInclude ≠ [] ∧ i.zmqLdflags ≠ []

instance (i : Inputs) : Decidable i.NamesExternal :=
  inferInstanceAs (Decidable (i.zmqInclude ≠ [] ∧ i.zmqLdflags ≠ []))

/-- The internal ZeroMQ is asked for, and no external one is named. -/
def Inputs.ForcesInternal (i : Inputs) : Prop := ¬i.NamesExternal ∧ i.enableInternal = true

instance (i : Inputs) : Decidable i.ForcesInternal :=
  inferInstanceAs (Decidable (¬i.NamesExternal ∧ i.enableInternal = true))

/-- `configure` selects the system ZeroMQ. -/
def Inputs.SelectsSystem (i : Inputs) : Prop :=
  ¬i.NamesExternal ∧ ¬i.enableInternal = true ∧ i.systemIncludedir ≠ [] ∧ i.systemLibdir ≠ []

/-- The draft API is switched on exactly for libzmq >= 4.3, behind the include path. -/
def DraftsMatch (r : Recipe) (site : Site) (i : Inputs) (v : Version) : Prop :=
  getZmqCppflags site (r.makeconf i) =
    some (withDrafts (decide v.AtLeast430) (((configure i).echoed r).cppflags site))

/-- The system library answers for the selected one, or the texts are ordered as the
numbers. -/
def Inputs.Decides (i : Inputs) (v : Version) : Prop :=
  if i.getSystemZmq430 = true then
    i.SelectsSystem ∨ (i.ForcesInternal ↔ ¬v.AtLeast430)
  else ¬v.AtLeast430 ∨ (4 ≤ leadingDigit v.major ∧ 3 ≤ leadingDigit v.minor)

/-- `ENABLE_INTERNAL_ZMQ` after the selection. -/
theorem configure_enableInternalZmq (i : Inputs) :
    (configure i).enableInternalZmq = yesNo (decide i.ForcesInternal) := by
  have hselect : (configure i).enableInternalZmq = i.select.2.2 := rfl
  rw [hselect, Inputs.select]
  by_cases hext : i.zmqInclude ≠ [] ∧ i.zmqLdflags ≠ []
  · have hforce : ¬i.ForcesInternal := fun h => h.1 hext
    rw [if_pos hext, decide_eq_false hforce]
  by_cases hint : i.enableInternal = true
  · have hforce : i.ForcesInternal := ⟨hext, hint⟩
    rw [if_neg hext, if_pos hint, decide_eq_true hforce]
  · have hforce : ¬i.ForcesInternal := fun h => hint h.2
    rw [if_neg hext, if_neg hint, decide_eq_false hforce]
    split <;> rfl

/-- The check of `zmq.h` looks at the leading digits. -/
theorem atLeast430_of_definedBy {v : Version} {zmqH : List Text} (h : v.DefinedBy zmqH) :
    atLeast430 zmqH = some (decide (4 ≤ leadingDigit v.major ∧ 3 ≤ leadingDigit v.minor)) := by
  have hfour : "4".toList = decimal 4 := by decide
  have hthree : "3".toList = decimal 3 := by decide
  have hmajor : "4".toList ≤ decimal v.major ↔ 4 ≤ leadingDigit v.major := by
    rw [hfour]
    exact digit_le_decimal_iff (by decide) v.major
  have hminor : "3".toList ≤ decimal v.minor ↔ 3 ≤ leadingDigit v.minor := by
    rw [hthree]
    exact digit_le_decimal_iff (by decide) v.minor
  rw [atLeast430, h.major, h.minor]
  simp only [hmajor, hminor]
  by_cases hlead : 4 ≤ leadingDigit v.major
  · simp only [hlead, true_and, if_true]
  · simp only [hlead, false_and, decide_false, if_false]

/-- The draft API is switched on by the system library or by the leading digits. -/
theorem getZmqCppflags_version {r : Recipe} {site : Site} {i : Inputs} {v : Version}
    {zmqH : List Text} (hread : site.zmqH (((configure i).echoed r).cppflags site) = some zmqH)
    (hv : v.DefinedBy zmqH) : getZmqCppflags site (r.makeconf i) =
      some (withDrafts
        (if i.getSystemZmq430 = true then decide ¬i.ForcesInternal
          else decide (4 ≤ leadingDigit v.major ∧ 3 ≤ leadingDigit v.minor))
        (((configure i).echoed r).cppflags site)) := by
  have hsystem : ((configure i).echoed r).getSystemZmq430 = yesNo i.getSystemZmq430 :=
    r.echo_yesNo _
  have hinternal : ((configure i).echoed r).enableInternalZmq =
      yesNo (decide i.ForcesInternal) := by
    rw [← r.echo_yesNo, ← configure_enableInternalZmq]
    rfl
  have hcheck : chkZmqH430 site (((configure i).echoed r).cppflags site) =
      some (decide (4 ≤ leadingDigit v.major ∧ 3 ≤ leadingDigit v.minor)) := by
    rw [← atLeast430_of_definedBy hv, chkZmqH430, ← Site.zmqH, hread, Option.bind_some]
  rw [Recipe.makeconf, getZmqCppflags_makeconf, hsystem, hinternal, addDrafts, hcheck]
  cases i.getSystemZmq430 with
  | true => cases hforce : decide i.ForcesInternal <;> simp_all [yesNo]
  | false => simp [yesNo]

/-- The suffix shows whether the draft API is switched on. -/
theorem withDrafts_injective (flags : Text) :
    Function.Injective fun drafts => withDrafts drafts flags := by
  intro drafts drafts' h
  cases drafts <;> cases drafts' <;> simp_all [withDrafts]

/-- The leading digits never find version 4.3 in an older one. -/
theorem Version.atLeast430_of_leadingDigit {v : Version} (hmajor : 4 ≤ leadingDigit v.major)
    (hminor : 3 ≤ leadingDigit v.minor) : v.AtLeast430 := by
  rw [AtLeast430]
  by_cases hnext : 4 < v.major
  · exact Or.inl hnext
  · rw [leadingDigit_of_lt (by omega)] at hmajor
    refine Or.inr ⟨by omega, ?_⟩
    by_contra hold
    rw [leadingDigit_of_lt (by omega)] at hminor
    exact hold hminor

/-- A system ZeroMQ is not the internal one. -/
theorem Inputs.SelectsSystem.not_forcesInternal {i : Inputs} (h : i.SelectsSystem) :
    ¬i.ForcesInternal := fun hforce => h.2.1 hforce.2

/-- The draft API follows the version exactly where the system library answers for the
selected one, or else the leading digits are ordered as the numbers. -/
theorem draftsMatch_iff {r : Recipe} {site : Site} {i : Inputs} {v : Version} {zmqH : List Text}
    (hread : site.zmqH (((configure i).echoed r).cppflags site) = some zmqH)
    (hv : v.DefinedBy zmqH)
    (hsystem : i.SelectsSystem → (i.getSystemZmq430 = true ↔ v.AtLeast430)) :
    DraftsMatch r site i v ↔ i.Decides v := by
  rw [DraftsMatch, getZmqCppflags_version hread hv, Option.some.injEq,
    (withDrafts_injective _).eq_iff, Inputs.Decides]
  by_cases hyes : i.getSystemZmq430 = true
  · rw [if_pos hyes, if_pos hyes, decide_eq_decide]
    constructor
    · intro hforce
      exact Or.inr (by rw [← hforce, not_not])
    · rintro (hselects | hforce)
      · exact iff_of_true hselects.not_forcesInternal ((hsystem hselects).mp hyes)
      · rw [hforce, not_not]
  · rw [if_neg hyes, if_neg hyes, decide_eq_decide]
    constructor
    · intro hdigits
      by_cases hversion : v.AtLeast430
      · exact Or.inr (hdigits.mpr hversion)
      · exact Or.inl hversion
    · rintro (hold | hdigits)
      · exact iff_of_false (fun h => hold (Version.atLeast430_of_leadingDigit h.1 h.2)) hold
      · exact iff_of_true hdigits (Version.atLeast430_of_leadingDigit hdigits.1 hdigits.2)

/-- pkg-config finds a system ZeroMQ 4.3. -/
def systemOnly : Inputs :=
  { ldflagsOnly with
    zmqLdflags := []
    pkgConfig := "/usr/bin/pkg-config".toList
    system404 := true
    system430 := true
    includedir := "/usr/include".toList
    libdir := "/usr/lib".toList }

/-- A package next to a system ZeroMQ 4.3. -/
def besideSystem : Site where
  libs := installed.libs
  zmqInclude := installed.zmqInclude
  scan file :=
    if file = "/usr/include/zmq.h".toList then
      some ["#define ZMQ_VERSION_MAJOR 4".toList, "#define ZMQ_VERSION_MINOR 3".toList]
    else none

/-- The system ZeroMQ 4.3 is selected, or without pkg-config the internal one, with version 4.2
in its `zmq.h`. -/
theorem draftsMatch_iff_system :
    (systemOnly.SelectsSystem ∧
      (DraftsMatch verbatim besideSystem systemOnly ⟨4, 3⟩ ↔ systemOnly.Decides ⟨4, 3⟩)) ∧
    (DraftsMatch verbatim installed { ldflagsOnly with zmqLdflags := [] } ⟨4, 2⟩ ↔
      Inputs.Decides { ldflagsOnly with zmqLdflags := [] } ⟨4, 2⟩) := by
  have hselects : systemOnly.SelectsSystem := by
    refine ⟨?_, ?_, ?_, ?_⟩ <;> decide
  have hsystem : besideSystem.zmqH
      (((configure systemOnly).echoed verbatim).cppflags besideSystem) =
        some ["#define ZMQ_VERSION_MAJOR 4".toList, "#define ZMQ_VERSION_MINOR 3".toList] := by
    decide
  have hinternal : installed.zmqH
      (((configure { ldflagsOnly with zmqLdflags := [] }).echoed verbatim).cppflags installed) =
        some ["#define ZMQ_VERSION_MAJOR 4".toList, "#define ZMQ_VERSION_MINOR 2".toList] := by
    decide
  refine ⟨⟨hselects, draftsMatch_iff hsystem ⟨by decide, by decide⟩ fun _ => ?_⟩, ?_⟩
  · exact iff_of_true (by decide) (by decide)
  · exact draftsMatch_iff hinternal ⟨by decide, by decide⟩ fun hsys => absurd rfl hsys.2.2.1

/-- The headers of an external ZeroMQ 4.10. -/
def newer : List Text :=
  ["#define ZMQ_VERSION_MAJOR 4".toList, "#define ZMQ_VERSION_MINOR 10".toList]

/-- A package next to an external ZeroMQ. -/
def besideNewer : Site where
  libs := installed.libs
  zmqInclude := installed.zmqInclude
  scan file := if file = "/opt/zmq/include/zmq.h".toList then some newer else none

/-- Both variables name the external ZeroMQ. -/
def external : Inputs :=
  { ldflagsOnly with zmqInclude := "-I/opt/zmq/include".toList }

/-- Version 4.10 gets no draft API, as its second part starts with a 1. -/
theorem newer_without_drafts :
    ¬ ∀ (r : Recipe) (site : Site) (i : Inputs) (v : Version) (zmqH : List Text),
      site.zmqH (((configure i).echoed r).cppflags site) = some zmqH → v.DefinedBy zmqH →
      (i.SelectsSystem → (i.getSystemZmq430 = true ↔ v.AtLeast430)) →
      DraftsMatch r site i v := by
  intro hall
  have hread : besideNewer.zmqH
      (((configure external).echoed verbatim).cppflags besideNewer) = some newer := by
    decide
  have hversion : Version.DefinedBy ⟨4, 10⟩ newer := ⟨by decide, by decide⟩
  have hdrafts := hall verbatim besideNewer external ⟨4, 10⟩ newer hread hversion
    fun hselects => absurd rfl hselects.2.2.1
  rw [DraftsMatch, getZmqCppflags_version hread hversion, Option.some.injEq,
    (withDrafts_injective _).eq_iff] at hdrafts
  simp [Inputs.getSystemZmq430, external, ldflagsOnly, leadingDigit, Version.AtLeast430]
    at hdrafts

end PbdZmq.Build

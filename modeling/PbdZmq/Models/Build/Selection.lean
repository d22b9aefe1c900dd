import Mathlib.Data.Char
import Mathlib.Data.List.Lex
import PbdZmq.Core.Lines

/-!
# Which ZeroMQ the package is built with, and which one it reports

`configure` selects an external, the internal or a system ZeroMQ. Its variables go into
the lines of `Makeconf`, from which `get.zmq.cppflags` and `get.zmq.ldflags` of the
installed package select again, by other conditions. On their way the values pass through
make and the shell, which change some characters.
-/

namespace PbdZmq.Build

/-- What `configure` finds. -/
structure Inputs where
  /-- `--enable-internal-zmq`. -/
  enableInternal : Bool
  /-- `PKG_CONFIG`, empty without pkg-config. -/
  pkgConfig : Text
  /-- The outcome of `PKG_CHECK_MODULES` for `libzmq >= 4.0.4`. -/
  system404 : Bool
  /-- The outcome for `libzmq = 4.1.6`. -/
  system416 : Bool
  /-- The outcome for `libzmq >= 4.3.0`. The prefix `zmq` is that of the first check, and with
  `zmq_CFLAGS` and `zmq_LIBS` set by that one pkg-config is not asked again. -/
  system430 : Bool
  /-- `includedir` of pkg-config. -/
  includedir : Text
  /-- `libdir` of pkg-config. -/
  libdir : Text
  /-- `ZMQ_INCLUDE` of the user. -/
  zmqInclude : Text
  /-- `ZMQ_LDFLAGS` of the user. -/
  zmqLdflags : Text
  /-- `ZMQ_POLLER` of the user. -/
  zmqPoller : Text

/-- The variables that `configure` substitutes. -/
structure Config where
  getPkgConfig : Text
  getSystemZmq : Text
  getSystemZmq430 : Text
  pkgConfig : Text
  systemZmqIncludedir : Text
  systemZmqLibdir : Text
  enableInternalZmq : Text
  internalZmqIncludedir : Text
  internalZmqLibdir : Text
  externalZmqInclude : Text
  externalZmqLdflags : Text
  zmqInclude : Text
  zmqLdflags : Text
  extLibs : Text
  zmqPoller : Text

/-- `yes` or `no`. -/
def yesNo (b : Bool) : Text := if b then "yes".toList else "no".toList

/-- `-I${INTERNAL_ZMQ_INCLUDEDIR}`, relative to the build directory. -/
def buildInclude : Text := "-I./zmqsrc/include".toList

/-- `-L${INTERNAL_ZMQ_LIBDIR} -lzmq`, relative to the build directory. -/
def buildLdflags : Text := "-L./ -lzmq".toList

/-- `GET_SYSTEM_ZMQ`, which excludes version 4.1.6. -/
def Inputs.getSystemZmq (i : Inputs) : Bool :=
  i.pkgConfig != [] && i.system404 && !i.system416

/-- pkg-config is asked for directories. -/
def Inputs.asksSystem (i : Inputs) : Bool :=
  i.pkgConfig != [] && i.getSystemZmq && !i.enableInternal

/-- `SYSTEM_ZMQ_INCLUDEDIR`. -/
def Inputs.systemIncludedir (i : Inputs) : Text := if i.asksSystem then i.includedir else []

/-- `SYSTEM_ZMQ_LIBDIR`. -/
def Inputs.systemLibdir (i : Inputs) : Text := if i.asksSystem then i.libdir else []

/-- `ZMQ_INCLUDE`, `ZMQ_LDFLAGS` and `ENABLE_INTERNAL_ZMQ`, in the order external, internal,
system, and the internal one again. -/
def Inputs.select (i : Inputs) : Text × Text × Text :=
  if i.zmqInclude ≠ [] ∧ i.zmqLdflags ≠ [] then (i.zmqInclude, i.zmqLdflags, yesNo false)
  else if i.enableInternal then (buildInclude, buildLdflags, yesNo true)
  else if i.systemIncludedir ≠ [] ∧ i.systemLibdir ≠ [] then
    ("-I".toList ++ i.systemIncludedir, "-L".toList ++ i.systemLibdir ++ " -lzmq".toList,
      yesNo false)
  else (buildInclude, buildLdflags, yesNo false)

/-- `configure`. -/
def configure (i : Inputs) : Config :=
  let (zmqInclude, zmqLdflags, enableInternalZmq) := i.select
  { getPkgConfig := yesNo (i.pkgConfig != [])
    getSystemZmq := yesNo i.getSystemZmq
    getSystemZmq430 := yesNo (i.pkgConfig != [] && i.system430)
    pkgConfig := i.pkgConfig
    systemZmqIncludedir := i.systemIncludedir
    systemZmqLibdir := i.systemLibdir
    enableInternalZmq := enableInternalZmq
    internalZmqIncludedir := "./zmqsrc/include".toList
    internalZmqLibdir := "./".toList
    externalZmqInclude := i.zmqInclude
    externalZmqLdflags := i.zmqLdflags
    zmqInclude := zmqInclude
    zmqLdflags := zmqLdflags
    extLibs :=
      if zmqInclude ≠ buildInclude ∧ zmqLdflags ≠ buildLdflags then [] else "$(R_ZMQ)".toList
    zmqPoller := if i.zmqPoller = [] then "select".toList else i.zmqPoller }

/-- The internal library is built: `EXT_LIBS` names it as a prerequisite. -/
def Config.buildsInternal (c : Config) : Bool := c.extLibs != []

/-- What the recipe of `Makevars` is to write. make has replaced its own variables. -/
def Config.settings (c : Config) : List (Text × Text) :=
  [("GET_PKG_CONFIG".toList, c.getPkgConfig),
    ("GET_SYSTEM_ZMQ".toList, c.getSystemZmq),
    ("GET_SYSTEM_ZMQ_430".toList, c.getSystemZmq430),
    ("PKG_CONFIG".toList, c.pkgConfig),
    ("SYSTEM_ZMQ_INCLUDEDIR".toList, c.systemZmqIncludedir),
    ("SYSTEM_ZMQ_LIBDIR".toList, c.systemZmqLibdir),
    ("ENABLE_INTERNAL_ZMQ".toList, c.enableInternalZmq),
    ("INTERNAL_ZMQ_INCLUDEDIR".toList, c.internalZmqIncludedir),
    ("INTERNAL_ZMQ_LIBDIR".toList, c.internalZmqLibdir),
    ("EXTERNAL_ZMQ_INCLUDE".toList, c.externalZmqInclude),
    ("EXTERNAL_ZMQ_LDFLAGS".toList, c.externalZmqLdflags),
    ("ZMQ_INCLUDE".toList, c.zmqInclude),
    ("ZMQ_LDFLAGS".toList, c.zmqLdflags),
    ("EXT_LIBS".toList, if c.buildsInternal then "libzmq.so".toList else []),
    ("ZMQ_POLLER".toList, c.zmqPoller),
    ("PKG_CPPFLAGS".toList, c.zmqInclude),
    ("PKG_CFLAGS".toList, c.zmqInclude),
    ("PKG_CXXFLAGS".toList, c.zmqInclude),
    ("PKG_LIBS".toList, c.zmqLdflags)]

/-- The lines of `Makeconf`, for values as the recipe has written them. -/
def Config.makeconf (c : Config) : List Text := c.settings.map fun p => keyLine p.1 p.2

/-- What means something to make, to the shell between double quotes, or to `scan`, which reads
the lines again. -/
def special : Text := ['$', '"', '\\', Char.ofNat 96, '\n', '\r']

/-- The value has no such character. -/
def isPlain (value : Text) : Bool := value.all fun c => !special.contains c

/-- What becomes of a value on its way through make and the shell, in a recipe that succeeds, up
to the line that is read. -/
structure Recipe where
  echo : Text → Text
  /-- A plain value stays as it is. -/
  echo_plain : ∀ value, isPlain value = true → echo value = value

/-- The values as the recipe writes them. -/
def Config.echoed (r : Recipe) (c : Config) : Config :=
  { c with
    getPkgConfig := r.echo c.getPkgConfig
    getSystemZmq := r.echo c.getSystemZmq
    getSystemZmq430 := r.echo c.getSystemZmq430
    pkgConfig := r.echo c.pkgConfig
    systemZmqIncludedir := r.echo c.systemZmqIncludedir
    systemZmqLibdir := r.echo c.systemZmqLibdir
    enableInternalZmq := r.echo c.enableInternalZmq
    internalZmqIncludedir := r.echo c.internalZmqIncludedir
    internalZmqLibdir := r.echo c.internalZmqLibdir
    externalZmqInclude := r.echo c.externalZmqInclude
    externalZmqLdflags := r.echo c.externalZmqLdflags
    zmqInclude := r.echo c.zmqInclude
    zmqLdflags := r.echo c.zmqLdflags
    zmqPoller := r.echo c.zmqPoller }

/-- The lines of `Makeconf` behind `configure`. -/
def Recipe.makeconf (r : Recipe) (i : Inputs) : List Text := ((configure i).echoed r).makeconf

/-- The installed package. -/
structure Site where
  /-- Absolute path of `./libs/`. -/
  libs : Text
  /-- Absolute path of `./zmq/include/`. -/
  zmqInclude : Text
  /-- The lines of a file, if it can be read. -/
  scan : Text → Option (List Text)

/-- The flags of the installed internal library. -/
def Site.ldflags (site : Site) : Text := "-L\"".toList ++ site.libs ++ "\" -lzmq".toList

/-- The flags of the installed internal headers. -/
def Site.cppflags (site : Site) : Text := "-I\"".toList ++ site.zmqInclude ++ "\"".toList

/-- `get.zmq.ldflags` on a system that is neither Windows nor Darwin. A missing line is an
R error. -/
def getZmqLdflags (site : Site) (ret : List Text) : Option Text := do
  let sysZmqLd ← readKey "SYSTEM_ZMQ_LIBDIR".toList ret
  let extZmqLd ← readKey "EXTERNAL_ZMQ_LDFLAGS".toList ret
  let enIntZmq ← readKey "ENABLE_INTERNAL_ZMQ".toList ret
  if (sysZmqLd = [] ∧ extZmqLd = []) ∨ enIntZmq = "yes".toList then return site.ldflags
  else readKey "ZMQ_LDFLAGS".toList ret

/-- `gsub("^-I(.*)$", "\\1", flags)`. -/
def dropInclude (flags : Text) : Text :=
  if "-I".toList.isPrefixOf flags then flags.drop 2 else flags

/-- `gsub("^\\\"(.*)\\\"$", "\\1", path)`. -/
def unquote (path : Text) : Text :=
  if 2 ≤ path.length ∧ path.head? = some '"' ∧ path.getLast? = some '"' then
    (path.drop 1).dropLast
  else path

/-- The parts of a version behind their `#define`. -/
def defines (name : Text) (lines : List Text) : List Text :=
  let start := "#define ".toList ++ name ++ " ".toList
  (lines.filter fun line => start.isPrefixOf line).map fun line => line.drop start.length

/-- `v.major >= 4 && v.minor >= 3`, which compares texts. A part that is not defined
exactly once is an R error. -/
def atLeast430 (zmqH : List Text) : Option Bool :=
  match defines "ZMQ_VERSION_MAJOR".toList zmqH with
  | [major] =>
    if "4".toList ≤ major then
      match defines "ZMQ_VERSION_MINOR".toList zmqH with
      | [minor] => some ("3".toList ≤ minor)
      | _ => none
    else some false
  | _ => none

/-- `chk.zmq.h.430`, from the `zmq.h` of one include path. -/
def chkZmqH430 (site : Site) (zmqCppflags : Text) : Option Bool :=
  (site.scan (unquote (dropInclude zmqCppflags) ++ "/zmq.h".toList)).bind atLeast430

/-- `zmq.cppflags` with the draft API switched on. -/
def withDrafts (drafts : Bool) (flags : Text) : Text :=
  if drafts then flags ++ " -DENABLE_DRAFTS=ON".toList else flags

/-- The end of `get.zmq.cppflags`, where it checks if libzmq >= 4.3.0 is used. -/
def addDrafts (site : Site) (sysZmq430 enIntZmq zmqCppflags : Text) : Option Text :=
  (if sysZmq430 = "no".toList then chkZmqH430 site zmqCppflags else some false).map fun chk =>
    withDrafts ((sysZmq430 = "yes".toList ∧ enIntZmq ≠ "yes".toList) ∨ chk = true) zmqCppflags

/-- The include path that `get.zmq.cppflags` selects. -/
def selectCppflags (site : Site) (ret : List Text) : Option Text := do
  let sysZmqInc ← readKey "SYSTEM_ZMQ_INCLUDEDIR".toList ret
  let extZmqInc ← readKey "EXTERNAL_ZMQ_INCLUDE".toList ret
  let enIntZmq ← readKey "ENABLE_INTERNAL_ZMQ".toList ret
  if (sysZmqInc = [] ∧ extZmqInc = []) ∨ enIntZmq = "yes".toList then return site.cppflags
  else readKey "ZMQ_INCLUDE".toList ret

/-- `get.zmq.cppflags` on a system that is neither Windows nor Darwin. -/
def getZmqCppflags (site : Site) (ret : List Text) : Option Text := do
  let zmqCppflags ← selectCppflags site ret
  let enIntZmq ← readKey "ENABLE_INTERNAL_ZMQ".toList ret
  let sysZmq430 ← readKey "GET_SYSTEM_ZMQ_430".toList ret
  addDrafts site sysZmq430 enIntZmq zmqCppflags

/-- No variable name has a blank. -/
theorem Config.blank_notMem (c : Config) : ∀ p ∈ c.settings, ' ' ∉ p.1 := by
  have hall : (c.settings.map Prod.fst).all (fun name => !name.contains ' ') = true := rfl
  intro p hp
  have hname := List.all_eq_true.mp hall p.1 (List.mem_map_of_mem hp)
  simpa using hname

/-- A variable is read from `Makeconf` as it was set. -/
theorem Config.readKey_makeconf (c : Config) {key value : Text} (h : ' ' ∉ key)
    (hset : (c.settings.find? fun p => p.1 = key).map Prod.snd = some value) :
    readKey key c.makeconf = some value := by
  rw [makeconf, readKey_map h c.blank_notMem]
  exact hset

/-- The condition of the R functions for the internal library, on a system and an external
value. -/
def Config.TakesInternal (c : Config) (sys ext : Text) : Prop :=
  (sys = [] ∧ ext = []) ∨ c.enableInternalZmq = yesNo true

instance (c : Config) (sys ext : Text) : Decidable (c.TakesInternal sys ext) :=
  inferInstanceAs (Decidable ((sys = [] ∧ ext = []) ∨ c.enableInternalZmq = yesNo true))

/-- The link flags that the R code selects. -/
def Config.ldflags (c : Config) (site : Site) : Text :=
  if c.TakesInternal c.systemZmqLibdir c.externalZmqLdflags then site.ldflags else c.zmqLdflags

/-- The include flags that the R code selects. -/
def Config.cppflags (c : Config) (site : Site) : Text :=
  if c.TakesInternal c.systemZmqIncludedir c.externalZmqInclude then site.cppflags
  else c.zmqInclude

/-- What `get.zmq.ldflags` returns. -/
theorem getZmqLdflags_makeconf (site : Site) (c : Config) :
    getZmqLdflags site c.makeconf = some (c.ldflags site) := by
  have hsys : readKey "SYSTEM_ZMQ_LIBDIR".toList c.makeconf = some c.systemZmqLibdir :=
    c.readKey_makeconf (by decide) rfl
  have hext : readKey "EXTERNAL_ZMQ_LDFLAGS".toList c.makeconf = some c.externalZmqLdflags :=
    c.readKey_makeconf (by decide) rfl
  have hint : readKey "ENABLE_INTERNAL_ZMQ".toList c.makeconf = some c.enableInternalZmq :=
    c.readKey_makeconf (by decide) rfl
  have hzmq : readKey "ZMQ_LDFLAGS".toList c.makeconf = some c.zmqLdflags :=
    c.readKey_makeconf (by decide) rfl
  rw [getZmqLdflags, hsys, hext, hint, hzmq]
  exact (apply_ite some _ _ _).symm

/-- The include path that `get.zmq.cppflags` selects from `Makeconf`. -/
theorem selectCppflags_makeconf (site : Site) (c : Config) :
    selectCppflags site c.makeconf = some (c.cppflags site) := by
  have hsys : readKey "SYSTEM_ZMQ_INCLUDEDIR".toList c.makeconf = some c.systemZmqIncludedir :=
    c.readKey_makeconf (by decide) rfl
  have hext : readKey "EXTERNAL_ZMQ_INCLUDE".toList c.makeconf = some c.externalZmqInclude :=
    c.readKey_makeconf (by decide) rfl
  have hint : readKey "ENABLE_INTERNAL_ZMQ".toList c.makeconf = some c.enableInternalZmq :=
    c.readKey_makeconf (by decide) rfl
  have hzmq : readKey "ZMQ_INCLUDE".toList c.makeconf = some c.zmqInclude :=
    c.readKey_makeconf (by decide) rfl
  rw [selectCppflags, hsys, hext, hint, hzmq]
  exact (apply_ite some _ _ _).symm

/-- What `get.zmq.cppflags` returns, or that it fails at `zmq.h`. -/
theorem getZmqCppflags_makeconf (site : Site) (c : Config) :
    getZmqCppflags site c.makeconf =
      addDrafts site c.getSystemZmq430 c.enableInternalZmq (c.cppflags site) := by
  have hint : readKey "ENABLE_INTERNAL_ZMQ".toList c.makeconf = some c.enableInternalZmq :=
    c.readKey_makeconf (by decide) rfl
  have h430 : readKey "GET_SYSTEM_ZMQ_430".toList c.makeconf = some c.getSystemZmq430 :=
    c.readKey_makeconf (by decide) rfl
  rw [getZmqCppflags, selectCppflags_makeconf, hint, h430]
  rfl

/-- The draft API is the only thing that the check of the version adds. -/
theorem addDrafts_eq_some {site : Site} {sysZmq430 enIntZmq zmqCppflags flags : Text}
    (h : addDrafts site sysZmq430 enIntZmq zmqCppflags = some flags) :
    ∃ drafts, flags = withDrafts drafts zmqCppflags := by
  obtain ⟨chk, -, hflags⟩ := Option.map_eq_some_iff.mp h
  exact ⟨_, hflags.symm⟩

/-- The check of the version fails only where it reads `zmq.h`. -/
theorem isSome_addDrafts (site : Site) (sysZmq430 enIntZmq zmqCppflags : Text) :
    (addDrafts site sysZmq430 enIntZmq zmqCppflags).isSome ↔
      (sysZmq430 = yesNo false → (chkZmqH430 site zmqCppflags).isSome) := by
  rw [addDrafts, Option.isSome_map]
  by_cases hno : sysZmq430 = "no".toList
  · rw [if_pos hno]
    exact ⟨fun h _ => h, fun h => h hno⟩
  · rw [if_neg hno]
    exact ⟨fun _ h => absurd h hno, fun _ => rfl⟩

/-- The internal library is built where either flag is the internal one. -/
theorem configure_buildsInternal (i : Inputs) : (configure i).buildsInternal = true ↔
    (configure i).zmqInclude = buildInclude ∨ (configure i).zmqLdflags = buildLdflags := by
  have hlibs : (configure i).extLibs =
      if (configure i).zmqInclude ≠ buildInclude ∧ (configure i).zmqLdflags ≠ buildLdflags then []
      else "$(R_ZMQ)".toList := rfl
  rw [Config.buildsInternal, hlibs]
  by_cases hboth :
      (configure i).zmqInclude ≠ buildInclude ∧ (configure i).zmqLdflags ≠ buildLdflags
  · rw [if_pos hboth]
    simp [hboth]
  · rw [if_neg hboth]
    refine ⟨fun _ => ?_, fun _ => rfl⟩
    rwa [not_and_or, not_ne_iff, not_ne_iff] at hboth

/-- The flags of the ZeroMQ that was selected, seen from the installed package. -/
def Config.reported (c : Config) (site : Site) : Text × Text :=
  if c.buildsInternal then (site.cppflags, site.ldflags) else (c.zmqInclude, c.zmqLdflags)

/-- Both functions of the installed package select the ZeroMQ that `configure` selected, the
installed one exactly if it was built, and no path of the build. The draft API may be switched
on. -/
def Agree (r : Recipe) (site : Site) (i : Inputs) : Prop :=
  ∃ drafts zmqCppflags zmqLdflags,
    selectCppflags site (r.makeconf i) = some zmqCppflags ∧
    getZmqCppflags site (r.makeconf i) = some (withDrafts drafts zmqCppflags) ∧
    getZmqLdflags site (r.makeconf i) = some zmqLdflags ∧
    (zmqCppflags, zmqLdflags) = (configure i).reported site ∧
    (zmqCppflags = site.cppflags ↔ (configure i).buildsInternal = true) ∧
    (zmqLdflags = site.ldflags ↔ (configure i).buildsInternal = true) ∧
    zmqCppflags ≠ buildInclude ∧ zmqLdflags ≠ buildLdflags

/-- The recipe writes these flags as they are, and one of the two values that are tested. -/
def Recipe.HandsOn (r : Recipe) (sys ext flags : Text) : Prop :=
  ¬(r.echo sys = [] ∧ r.echo ext = []) ∧ r.echo flags = flags

/-- The flags are neither those of the build nor those of the installed internal library, and
the recipe hands them on. -/
structure Recipe.Delivers (r : Recipe) (site : Site) (i : Inputs) (inc ld : Text) : Prop where
  inc_ne_build : inc ≠ buildInclude
  ld_ne_build : ld ≠ buildLdflags
  inc_ne_installed : inc ≠ site.cppflags
  ld_ne_installed : ld ≠ site.ldflags
  inc : r.HandsOn i.systemIncludedir i.zmqInclude inc
  ld : r.HandsOn i.systemLibdir i.zmqLdflags ld

/-- The flags that are not internal are handed on, and beside the internal ones nothing else is
set, unless they are forced. -/
def Inputs.Consistent (r : Recipe) (site : Site) (i : Inputs) : Prop :=
  if i.zmqInclude ≠ [] ∧ i.zmqLdflags ≠ [] then r.Delivers site i i.zmqInclude i.zmqLdflags
  else if i.enableInternal then True
  else if i.systemIncludedir ≠ [] ∧ i.systemLibdir ≠ [] then
    r.Delivers site i ("-I".toList ++ i.systemIncludedir)
      ("-L".toList ++ i.systemLibdir ++ " -lzmq".toList)
  else
    (r.echo i.systemIncludedir = [] ∧ r.echo i.zmqInclude = []) ∧
      r.echo i.systemLibdir = [] ∧ r.echo i.zmqLdflags = []

/-- The include flags of the external, the internal or the system ZeroMQ. -/
def Inputs.headers (i : Inputs) (site : Site) : Text :=
  if i.zmqInclude ≠ [] ∧ i.zmqLdflags ≠ [] then i.zmqInclude
  else if i.enableInternal then site.cppflags
  else if i.systemIncludedir ≠ [] ∧ i.systemLibdir ≠ [] then
    "-I".toList ++ i.systemIncludedir
  else site.cppflags

/-- `GET_SYSTEM_ZMQ_430` is yes, or the version stands in the `zmq.h` of these headers. -/
def Inputs.VersionKnown (i : Inputs) (site : Site) : Prop :=
  (i.pkgConfig ≠ [] ∧ i.system430 = true) ∨ (chkZmqH430 site (i.headers site)).isSome = true

/-- Installed headers stand in quotes. -/
theorem Site.cppflags_ne (site : Site) : buildInclude ≠ site.cppflags := by
  have hquote : site.cppflags[2]? = some '"' := rfl
  have hdot : buildInclude[2]? = some '.' := rfl
  intro heq
  rw [heq, hquote] at hdot
  simp at hdot

/-- The installed library stands in quotes. -/
theorem Site.ldflags_ne (site : Site) : buildLdflags ≠ site.ldflags := by
  have hquote : site.ldflags[2]? = some '"' := rfl
  have hdot : buildLdflags[2]? = some '.' := rfl
  intro heq
  rw [heq, hquote] at hdot
  simp at hdot

/-- The recipe writes `yes` and `no`. -/
theorem Recipe.echo_yesNo (r : Recipe) (b : Bool) : r.echo (yesNo b) = yesNo b := by
  cases b <;> exact r.echo_plain _ (by decide)

/-- The recipe writes the include path of the build. -/
theorem Recipe.echo_buildInclude (r : Recipe) : r.echo buildInclude = buildInclude :=
  r.echo_plain _ (by decide)

/-- The recipe writes the library path of the build. -/
theorem Recipe.echo_buildLdflags (r : Recipe) : r.echo buildLdflags = buildLdflags :=
  r.echo_plain _ (by decide)

/-- Without a forced internal ZeroMQ the R code looks at the two values only. -/
theorem Config.takesInternal_iff {c : Config} (h : c.enableInternalZmq = yesNo false)
    (sys ext : Text) : c.TakesInternal sys ext ↔ sys = [] ∧ ext = [] := by
  refine or_iff_left ?_
  rw [h]
  decide

/-- What the R code selects from the two values that it looks at. -/
def Recipe.selected (r : Recipe) (sys ext flags installed : Text) : Text :=
  if r.echo sys = [] ∧ r.echo ext = [] then installed else r.echo flags

/-- The flags are selected exactly if they are handed on. -/
theorem Recipe.selected_eq_iff {r : Recipe} {sys ext flags installed : Text}
    (h : flags ≠ installed) : r.selected sys ext flags installed = flags ↔
      r.HandsOn sys ext flags := by
  rw [selected, HandsOn]
  by_cases hempty : r.echo sys = [] ∧ r.echo ext = []
  · rw [if_pos hempty]
    exact iff_of_false h.symm fun hands => hands.1 hempty
  · rw [if_neg hempty, and_iff_right hempty]

/-- Flags of the build that the recipe writes are selected exactly if one of the values is
set. -/
theorem Recipe.selected_eq_installed_iff {r : Recipe} {sys ext flags installed : Text}
    (hecho : r.echo flags = flags) (h : flags ≠ installed) :
    r.selected sys ext flags installed = installed ↔ r.echo sys = [] ∧ r.echo ext = [] := by
  rw [selected, hecho]
  by_cases hempty : r.echo sys = [] ∧ r.echo ext = []
  · rw [if_pos hempty]
    exact iff_of_true rfl hempty
  · rw [if_neg hempty]
    exact iff_of_false h hempty

/-- Without a forced internal ZeroMQ, the include flags that the R code selects. -/
theorem Recipe.cppflags_eq (r : Recipe) (site : Site) {i : Inputs}
    (h : (configure i).enableInternalZmq = yesNo false) :
    ((configure i).echoed r).cppflags site = r.selected i.systemIncludedir i.zmqInclude
      (configure i).zmqInclude site.cppflags := by
  have hno : ((configure i).echoed r).enableInternalZmq = yesNo false := by
    rw [← r.echo_yesNo, ← h]
    rfl
  exact if_congr (Config.takesInternal_iff hno _ _) rfl rfl

/-- Without a forced internal ZeroMQ, the link flags that the R code selects. -/
theorem Recipe.ldflags_eq (r : Recipe) (site : Site) {i : Inputs}
    (h : (configure i).enableInternalZmq = yesNo false) :
    ((configure i).echoed r).ldflags site = r.selected i.systemLibdir i.zmqLdflags
      (configure i).zmqLdflags site.ldflags := by
  have hno : ((configure i).echoed r).enableInternalZmq = yesNo false := by
    rw [← r.echo_yesNo, ← h]
    rfl
  exact if_congr (Config.takesInternal_iff hno _ _) rfl rfl

/-- The R code selects what `configure` selected, and the installed library exactly if it was
built. -/
structure Reports (r : Recipe) (site : Site) (i : Inputs) : Prop where
  flags : (((configure i).echoed r).cppflags site, ((configure i).echoed r).ldflags site) =
    (configure i).reported site
  inc : ((configure i).echoed r).cppflags site = site.cppflags ↔
    (configure i).buildsInternal = true
  ld : ((configure i).echoed r).ldflags site = site.ldflags ↔
    (configure i).buildsInternal = true

/-- With the internal library built, the R code has to select it twice. -/
theorem reports_iff_of_built {r : Recipe} {site : Site} {i : Inputs}
    (h : (configure i).buildsInternal = true) : Reports r site i ↔
      ((configure i).echoed r).cppflags site = site.cppflags ∧
        ((configure i).echoed r).ldflags site = site.ldflags := by
  constructor
  · intro hreports
    exact ⟨hreports.inc.mpr h, hreports.ld.mpr h⟩
  · rintro ⟨hinc, hld⟩
    refine ⟨?_, iff_of_true hinc h, iff_of_true hld h⟩
    rw [Config.reported, if_pos h, hinc, hld]

/-- Without it, the R code has to select the configured flags, which are others. -/
theorem reports_iff_of_not_built {r : Recipe} {site : Site} {i : Inputs}
    (h : ¬(configure i).buildsInternal = true) : Reports r site i ↔
      (((configure i).echoed r).cppflags site = (configure i).zmqInclude ∧
        (configure i).zmqInclude ≠ site.cppflags) ∧
      ((configure i).echoed r).ldflags site = (configure i).zmqLdflags ∧
        (configure i).zmqLdflags ≠ site.ldflags := by
  have hreported : (configure i).reported site =
      ((configure i).zmqInclude, (configure i).zmqLdflags) := if_neg h
  constructor
  · rintro ⟨hflags, hinc, hld⟩
    rw [hreported, Prod.mk.injEq] at hflags
    rw [hflags.1] at hinc
    rw [hflags.2] at hld
    exact ⟨⟨hflags.1, fun heq => h (hinc.mp heq)⟩, hflags.2, fun heq => h (hld.mp heq)⟩
  · rintro ⟨⟨hinc, hinc'⟩, hld, hld'⟩
    refine ⟨?_, ?_, ?_⟩
    · rw [hreported, hinc, hld]
    · rw [hinc]
      exact iff_of_false hinc' h
    · rw [hld]
      exact iff_of_false hld' h

/-- The flags of an external or a system ZeroMQ are reported exactly if they are delivered. A
path of the build is written, so that its value is set and the installed library is not taken. -/
theorem reports_iff_delivers {r : Recipe} {site : Site} {i : Inputs}
    (hno : (configure i).enableInternalZmq = yesNo false)
    (hinc : (configure i).zmqInclude = buildInclude →
      ¬(r.echo i.systemIncludedir = [] ∧ r.echo i.zmqInclude = []))
    (hld : (configure i).zmqLdflags = buildLdflags →
      ¬(r.echo i.systemLibdir = [] ∧ r.echo i.zmqLdflags = [])) :
    Reports r site i ↔ r.Delivers site i (configure i).zmqInclude (configure i).zmqLdflags := by
  by_cases hbuilt : (configure i).buildsInternal = true
  · refine iff_of_false ?_ ?_
    · rw [reports_iff_of_built hbuilt, r.cppflags_eq site hno, r.ldflags_eq site hno]
      rintro ⟨hcpp, hlink⟩
      rcases (configure_buildsInternal i).mp hbuilt with hpath | hpath
      · rw [hpath, Recipe.selected_eq_installed_iff r.echo_buildInclude site.cppflags_ne] at hcpp
        exact hinc hpath hcpp
      · rw [hpath, Recipe.selected_eq_installed_iff r.echo_buildLdflags site.ldflags_ne] at hlink
        exact hld hpath hlink
    · intro hdelivers
      rcases (configure_buildsInternal i).mp hbuilt with hpath | hpath
      · exact hdelivers.inc_ne_build hpath
      · exact hdelivers.ld_ne_build hpath
  · have hpaths := hbuilt
    rw [configure_buildsInternal, not_or] at hpaths
    rw [reports_iff_of_not_built hbuilt, r.cppflags_eq site hno, r.ldflags_eq site hno]
    constructor
    · rintro ⟨⟨hcpp, hcpp'⟩, hlink, hlink'⟩
      exact ⟨hpaths.1, hpaths.2, hcpp', hlink', (Recipe.selected_eq_iff hcpp').mp hcpp,
        (Recipe.selected_eq_iff hlink').mp hlink⟩
    · intro h
      exact ⟨⟨(Recipe.selected_eq_iff h.inc_ne_installed).mpr h.inc, h.inc_ne_installed⟩,
        (Recipe.selected_eq_iff h.ld_ne_installed).mpr h.ld, h.ld_ne_installed⟩

/-- The R code reports what was selected exactly on consistent inputs. -/
theorem reports_iff (r : Recipe) (site : Site) (i : Inputs) :
    Reports r site i ↔ i.Consistent r site := by
  have hselect : ((configure i).zmqInclude, (configure i).zmqLdflags,
    (configure i).enableInternalZmq) = i.select := rfl
  rw [Inputs.select] at hselect
  rw [Inputs.Consistent]
  by_cases hext : i.zmqInclude ≠ [] ∧ i.zmqLdflags ≠ []
  · rw [if_pos hext, Prod.mk.injEq, Prod.mk.injEq] at hselect
    obtain ⟨hinc, hld, hno⟩ := hselect
    rw [if_pos hext, ← hinc, ← hld]
    refine reports_iff_delivers hno ?_ ?_
    · rintro hpath ⟨-, hempty⟩
      rw [← hinc, hpath, r.echo_buildInclude] at hempty
      exact absurd hempty (by decide)
    · rintro hpath ⟨-, hempty⟩
      rw [← hld, hpath, r.echo_buildLdflags] at hempty
      exact absurd hempty (by decide)
  by_cases hforce : i.enableInternal = true
  · rw [if_neg hext, if_pos hforce, Prod.mk.injEq, Prod.mk.injEq] at hselect
    obtain ⟨hinc, hld, hyes⟩ := hselect
    have htakes : ((configure i).echoed r).enableInternalZmq = yesNo true := by
      rw [← r.echo_yesNo, ← hyes]
      rfl
    rw [if_neg hext, if_pos hforce,
      reports_iff_of_built ((configure_buildsInternal i).mpr (.inl hinc))]
    exact iff_of_true ⟨if_pos (.inr htakes), if_pos (.inr htakes)⟩ trivial
  by_cases hsys : i.systemIncludedir ≠ [] ∧ i.systemLibdir ≠ []
  · rw [if_neg hext, if_neg hforce, if_pos hsys, Prod.mk.injEq, Prod.mk.injEq] at hselect
    obtain ⟨hinc, hld, hno⟩ := hselect
    rw [if_neg hext, if_neg hforce, if_pos hsys, ← hinc, ← hld]
    refine reports_iff_delivers hno ?_ ?_
    · rintro hpath ⟨hempty, -⟩
      have hdir : i.systemIncludedir = "./zmqsrc/include".toList :=
        (List.append_right_inj "-I".toList).mp (hinc.symm.trans hpath)
      rw [hdir, r.echo_plain _ (by decide)] at hempty
      exact absurd hempty (by decide)
    · rintro hpath ⟨hempty, -⟩
      have hbuild : buildLdflags = "-L".toList ++ "./".toList ++ " -lzmq".toList := rfl
      have hdir : i.systemLibdir = "./".toList := by
        rw [hld, hbuild, List.append_left_inj, List.append_right_inj] at hpath
        exact hpath
      rw [hdir, r.echo_plain _ (by decide)] at hempty
      exact absurd hempty (by decide)
  · rw [if_neg hext, if_neg hforce, if_neg hsys, Prod.mk.injEq, Prod.mk.injEq] at hselect
    obtain ⟨hinc, hld, hno⟩ := hselect
    rw [if_neg hext, if_neg hforce, if_neg hsys,
      reports_iff_of_built ((configure_buildsInternal i).mpr (.inl hinc)),
      r.cppflags_eq site hno, r.ldflags_eq site hno, hinc, hld,
      Recipe.selected_eq_installed_iff r.echo_buildInclude site.cppflags_ne,
      Recipe.selected_eq_installed_iff r.echo_buildLdflags site.ldflags_ne]

/-- No path of the build is reported for what was selected. -/
theorem reported_ne (site : Site) (i : Inputs) :
    ((configure i).reported site).1 ≠ buildInclude ∧
      ((configure i).reported site).2 ≠ buildLdflags := by
  rw [Config.reported]
  by_cases hbuilt : (configure i).buildsInternal = true
  · rw [if_pos hbuilt]
    exact ⟨site.cppflags_ne.symm, site.ldflags_ne.symm⟩
  · rw [if_neg hbuilt]
    rwa [configure_buildsInternal, not_or] at hbuilt

/-- On consistent inputs the headers reported are those of the ZeroMQ selected. -/
theorem Inputs.Consistent.reported_eq {r : Recipe} {site : Site} {i : Inputs}
    (h : i.Consistent r site) : ((configure i).reported site).1 = i.headers site := by
  have hselect : ((configure i).zmqInclude, (configure i).zmqLdflags,
    (configure i).enableInternalZmq) = i.select := rfl
  rw [Inputs.select] at hselect
  rw [Consistent] at h
  rw [headers, Config.reported]
  have hexternal : r.Delivers site i (configure i).zmqInclude (configure i).zmqLdflags →
      ¬(configure i).buildsInternal = true := by
    intro hdelivers hbuilt
    rcases (configure_buildsInternal i).mp hbuilt with hpath | hpath
    · exact hdelivers.inc_ne_build hpath
    · exact hdelivers.ld_ne_build hpath
  by_cases hext : i.zmqInclude ≠ [] ∧ i.zmqLdflags ≠ []
  · rw [if_pos hext, Prod.mk.injEq, Prod.mk.injEq] at hselect
    obtain ⟨hinc, hld, -⟩ := hselect
    rw [if_pos hext, ← hinc, ← hld] at h
    rw [if_pos hext, if_neg (hexternal h)]
    exact hinc
  by_cases hforce : i.enableInternal = true
  · rw [if_neg hext, if_pos hforce, Prod.mk.injEq] at hselect
    rw [if_neg hext, if_pos hforce,
      if_pos ((configure_buildsInternal i).mpr (.inl hselect.1))]
  by_cases hsys : i.systemIncludedir ≠ [] ∧ i.systemLibdir ≠ []
  · rw [if_neg hext, if_neg hforce, if_pos hsys, Prod.mk.injEq, Prod.mk.injEq] at hselect
    obtain ⟨hinc, hld, -⟩ := hselect
    rw [if_neg hext, if_neg hforce, if_pos hsys, ← hinc, ← hld] at h
    rw [if_neg hext, if_neg hforce, if_pos hsys, if_neg (hexternal h)]
    exact hinc
  · rw [if_neg hext, if_neg hforce, if_neg hsys, Prod.mk.injEq] at hselect
    rw [if_neg hext, if_neg hforce, if_neg hsys,
      if_pos ((configure_buildsInternal i).mpr (.inl hselect.1))]

/-- Where the version is known, `get.zmq.cppflags` returns. -/
theorem versionKnown_iff {r : Recipe} {site : Site} {i : Inputs}
    (h : ((configure i).echoed r).cppflags site = i.headers site) :
    i.VersionKnown site ↔ (getZmqCppflags site (r.makeconf i)).isSome := by
  have hno : ((configure i).echoed r).getSystemZmq430 = yesNo false ↔
      ¬(i.pkgConfig ≠ [] ∧ i.system430 = true) := by
    have hyes : ((configure i).echoed r).getSystemZmq430 =
        yesNo (i.pkgConfig != [] && i.system430) := r.echo_yesNo _
    have hinj : ∀ b, yesNo b = yesNo false ↔ b = false := by decide
    rw [hyes, hinj]
    simp
  rw [Recipe.makeconf, getZmqCppflags_makeconf, isSome_addDrafts, hno, h, Inputs.VersionKnown,
    or_iff_not_imp_left]

/-- Build and reported flags agree exactly on consistent inputs with a known version. -/
theorem agree_iff (r : Recipe) (site : Site) (i : Inputs) :
    Agree r site i ↔ i.Consistent r site ∧ i.VersionKnown site := by
  have hselected := selectCppflags_makeconf site ((configure i).echoed r)
  have hlinked := getZmqLdflags_makeconf site ((configure i).echoed r)
  constructor
  · rintro ⟨drafts, inc, ld, hcpp, hall, hlink, hrep, hinc, hld, -⟩
    obtain rfl : inc = _ := Option.some.inj (hcpp.symm.trans hselected)
    obtain rfl : ld = _ := Option.some.inj (hlink.symm.trans hlinked)
    have hcons := (reports_iff r site i).mp ⟨hrep, hinc, hld⟩
    have hheaders := (congrArg Prod.fst hrep).trans hcons.reported_eq
    exact ⟨hcons, (versionKnown_iff hheaders).mpr (by rw [hall]; rfl)⟩
  · rintro ⟨hcons, hknown⟩
    obtain ⟨hrep, hinc, hld⟩ := (reports_iff r site i).mpr hcons
    have hheaders := (congrArg Prod.fst hrep).trans hcons.reported_eq
    obtain ⟨flags, hall⟩ := Option.isSome_iff_exists.mp ((versionKnown_iff hheaders).mp hknown)
    have hadd := hall
    rw [Recipe.makeconf, getZmqCppflags_makeconf] at hadd
    obtain ⟨drafts, rfl⟩ := addDrafts_eq_some hadd
    have hne := reported_ne site i
    rw [← hrep] at hne
    exact ⟨drafts, _, _, hselected, hall, hlinked, hrep, hinc, hld, hne⟩

/-- A package with the internal library and the version of its header. -/
def installed : Site where
  libs := "/usr/lib/R/library/pbdZMQ/libs".toList
  zmqInclude := "/usr/lib/R/library/pbdZMQ/zmq/include".toList
  scan file :=
    if file = "/usr/lib/R/library/pbdZMQ/zmq/include/zmq.h".toList then
      some ["#define ZMQ_VERSION_MAJOR 4".toList, "#define ZMQ_VERSION_MINOR 2".toList]
    else none

/-- No pkg-config, and `ZMQ_LDFLAGS` without `ZMQ_INCLUDE`. -/
def ldflagsOnly : Inputs where
  enableInternal := false
  pkgConfig := []
  system404 := false
  system416 := false
  system430 := false
  includedir := []
  libdir := []
  zmqInclude := []
  zmqLdflags := "-L/opt/zmq/lib -lzmq".toList
  zmqPoller := []

/-- make and the shell leave every value alone. -/
def verbatim : Recipe where
  echo value := value
  echo_plain _ _ := rfl

/-- With `ZMQ_LDFLAGS` alone the internal library is built, but linked by the path of the
build. -/
theorem unpaired_ldflags : ¬ ∀ (r : Recipe) (site : Site) (i : Inputs), Agree r site i := by
  intro hall
  obtain ⟨drafts, inc, ld, -, -, hlink, -, -, -, -, hne⟩ := hall verbatim installed ldflagsOnly
  rw [Recipe.makeconf, getZmqLdflags_makeconf, Option.some.injEq] at hlink
  have hpath : ((configure ldflagsOnly).echoed verbatim).ldflags installed = buildLdflags := by
    decide
  exact hne (hlink.symm.trans hpath)

end PbdZmq.Build

import ImportCensus.Census.Source
import ImportCensus.Census.Visit

/-!
# `ImportCensus.Census.Analysis`: the census of two trees

The classes that the source tree declares are collected first, then the usages of these classes are
gathered from the target tree. Either tree is worked through in one pass, in which each unit is read
as soon as the walk meets it, or in phases: first all units are found, then each is read on its own
(which may happen at the same time for all of them), then the results are put together in the order
of the walk.
-/

set_option autoImplicit false

namespace ImportCensus

/-- How trees are worked through: in the order of names or in that of the host, and in phases or in
one pass. -/
structure CensusOptions where
  sorted : Bool
  parallel : Bool
  deriving DecidableEq, Repr

/-- The classes of the source tree, and their usages in the target tree. -/
structure Census where
  classes : ClassSet
  usages : UsageMap

namespace ClassSet

/-- The set with the class of a unit. A unit without package is left out, with an event. -/
def addUnit (set : ClassSet) (unit : CompilationUnit) : Traced ClassSet := do
  if !unit.hasPackage then Traced.logEvent (.unitWithoutPackage unit.name)
  return set.insertUnit unit

/-- The set with the class that a file declares. -/
def addFile (set : ClassSet) (file : SourceFile) : Traced ClassSet := do
  set.addUnit (← file.unit)

end ClassSet

namespace FileSystem

/-- The classes declared below a root. -/
def collectClasses (fs : FileSystem) (options : CensusOptions) (root : Text) :
    Traced ClassSet := do
  Traced.logEvent (.collecting root)
  let classes ←
    if options.parallel then do
      let files ← fs.findUnits options.sorted root
      let units ← files.mapM SourceFile.unit
      units.foldlM ClassSet.addUnit ClassSet.empty
    else
      (fs.visit options.sorted root (fun set file => .ofTraced set (set.addFile file))
        ClassSet.empty).traced
  Traced.logEvent (.classesFound classes.size)
  return classes

/-- The usages of known classes below a root. -/
def gatherUsages (fs : FileSystem) (options : CensusOptions) (scanner : Scanner)
    (known : ClassSet) (root : Text) : Traced UsageMap := do
  Traced.logEvent (.searching root)
  let usages ←
    if options.parallel then do
      let files ← fs.findUnits options.sorted root
      let found ← files.mapM fun file => file.usages scanner known
      pure (found.foldl UsageMap.recordAll UsageMap.empty)
    else
      (fs.visit options.sorted root
        (fun map file => .ofTraced map (map.recordAll <$> file.usages scanner known))
        UsageMap.empty).traced
  Traced.logEvent (.usedClassesFound usages.size)
  return usages

/-- The census of two trees. -/
def census (fs : FileSystem) (options : CensusOptions) (source target : Text) :
    Traced Census := do
  let classes ← fs.collectClasses options source
  let usages ← fs.gatherUsages options Header.usagesIn classes target
  return ⟨classes, usages⟩

end FileSystem

end ImportCensus

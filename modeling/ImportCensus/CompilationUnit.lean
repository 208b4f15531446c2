import ImportCensus.Text.Basic

/-!
# `ImportCensus.CompilationUnit`: compilation units and their names

A compilation unit is a file `Unit.java` that declares the class `Unit` in some package. The
qualified name of that class is the package, a dot and the unit's name. A unit without a package
still has a qualified name, which then starts with the dot.
-/

set_option autoImplicit false

namespace ImportCensus

/-- A compilation unit: the package it declares (empty if none) and its own name. -/
structure CompilationUnit where
  package : Text
  name : Text
  deriving DecidableEq, Repr

namespace CompilationUnit

/-- How the name of a compilation unit's file ends. -/
def fileSuffix : Text := ".java".toList

/-- Tests whether a file of this name holds a compilation unit. -/
def isFileName (fileName : Text) : Bool := fileSuffix.isSuffixOf fileName

/-- The name of the unit in a file: the file's name less one suffix `.java`. A name without that
suffix is kept whole. -/
def nameOfFile (fileName : Text) : Text := (fileSuffix.isSuffixOf? fileName).getD fileName

/-- Tests whether the unit declares a package. -/
def hasPackage (unit : CompilationUnit) : Bool := !unit.package.isEmpty

/-- The package, a dot and the unit's name. -/
def qualifiedName (unit : CompilationUnit) : Text := unit.package ++ '.' :: unit.name

end CompilationUnit

end ImportCensus

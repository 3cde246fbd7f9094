import TestReach.Text.Pieces

/-!
# Templates

The configurations that a new one can start from.
-/

namespace TestReach.Command

/-- A configuration to start from. -/
structure Template where
  name : String
  description : String
  lines : List String
  deriving DecidableEq, Repr

namespace Template

/-- The text of a template; every line has its end. -/
def text (t : Template) : String :=
  Text.unlines t.lines

/-- A configuration to start from. -/
def minimal : Template where
  name := "minimal"
  description := "Single placeholder marker to edit"
  lines := [
    "# testtrace configuration",
    "#",
    "# Markers are canonical qualified type names. A method carrying an",
    "# attribute whose type is, derives from, or implements one of these",
    "# counts as a test. Nested types use '+': Outer+Inner.",
    "version: \"1.0\"",
    "name: \"Minimal\"",
    "",
    "markers:",
    "  - Example.Testing.TestAttribute",
    "",
    "# transitive: anything reachable from a test through callers is tested",
    "# one_hop: only methods called directly by a test (legacy, under-reports)",
    "propagation: transitive"]

/-- For MSTest. -/
def mstest : Template where
  name := "mstest"
  description := "MSTest [TestMethod]"
  lines := [
    "# testtrace configuration for MSTest projects",
    "version: \"1.0\"",
    "name: \"MSTest\"",
    "",
    "markers:",
    "  - Microsoft.VisualStudio.TestTools.UnitTesting.TestMethodAttribute",
    "",
    "propagation: transitive",
    "",
    "# Fail the run when fewer methods than this are reached from tests.",
    "min_tested_percent: 50",
    "",
    "# Give up on a single project after this many seconds.",
    "project_timeout_secs: 300"]

/-- For NUnit. -/
def nunit : Template where
  name := "nunit"
  description := "NUnit [Test], [TestCase], [TestCaseSource], [Theory]"
  lines := [
    "# testtrace configuration for NUnit projects",
    "version: \"1.0\"",
    "name: \"NUnit\"",
    "",
    "markers:",
    "  - NUnit.Framework.TestAttribute",
    "  - NUnit.Framework.TestCaseAttribute",
    "  - NUnit.Framework.TestCaseSourceAttribute",
    "  - NUnit.Framework.TheoryAttribute",
    "",
    "propagation: transitive",
    "",
    "min_tested_percent: 50",
    "",
    "project_timeout_secs: 300"]

/-- For xUnit. -/
def xunit : Template where
  name := "xunit"
  description := "xUnit [Fact] and everything derived from it"
  lines := [
    "# testtrace configuration for xUnit projects",
    "#",
    "# TheoryAttribute derives from FactAttribute, so one marker covers both.",
    "version: \"1.0\"",
    "name: \"xUnit\"",
    "",
    "markers:",
    "  - Xunit.FactAttribute",
    "",
    "propagation: transitive",
    "",
    "min_tested_percent: 50",
    "",
    "project_timeout_secs: 300"]

/-- All templates, in the order they are listed. -/
def all : List Template :=
  [minimal, mstest, nunit, xunit]

/-- The template of a name. -/
def find? (name : String) : Option Template :=
  all.find? (·.name = name)

end Template

end TestReach.Command

import Assay.Catalog.Basic
import Assay.Text.Blank
import Assay.Text.Cut
import Assay.Text.Lines

/-!
# Method lists

A list of method identifiers, one a line, in which methods are looked up by a part of their
identifier; and the list of the benchmark.
-/

namespace Assay.Suite

/-- The identifiers of the benchmark methods. -/
def benchmarkMethods : String := String.join [
  "jpamb.cases.BenchmarkSuite.changeStateNested:()V\n",
  "jpamb.cases.BenchmarkSuite.assertLiteralTrue:()V\n",
  "jpamb.cases.BenchmarkSuite.assertWithIncrement:()V\n",
  "jpamb.cases.BenchmarkSuite.divideByN:(II)V\n",
  "jpamb.cases.BenchmarkSuite.divideByNMinus12:(II)V\n",
  "jpamb.cases.BenchmarkSuite.withdraw:(",
  "Ljpamb/utils/PositiveInteger<init>I;Ljpamb/utils/PositiveInteger<init>I;I)V\n",
  "jpamb.cases.BenchmarkSuite.normalizeEdgeWeight:(Ljpamb/utils/PositiveInteger<init>I;II)V\n",
  "jpamb.cases.BenchmarkSuite.calculateInterest:(",
  "Ljpamb/utils/PositiveInteger<init>I;Ljpamb/utils/PositiveInteger<init>I;",
  "Ljpamb/utils/PositiveInteger<init>I;)V\n",
  "jpamb.cases.BenchmarkSuite.balanceLoad:(",
  "Ljpamb/utils/PositiveInteger<init>I;Ljpamb/utils/PositiveInteger<init>I;I)V\n",
  "jpamb.cases.BenchmarkSuite.extractBlock:(",
  "Ljpamb/utils/PositiveInteger<init>I;Ljpamb/utils/CappedInteger<init>II;",
  "Ljpamb/utils/CappedInteger<init>II;)V\n",
  "jpamb.cases.BenchmarkSuite.extractPacketWindow:(",
  "Ljpamb/utils/PositiveInteger<init>I;Ljpamb/utils/CappedInteger<init>II;)V\n",
  "jpamb.cases.BenchmarkSuite.invokeChangeState:()V\n",
  "jpamb.cases.BenchmarkSuite.safeArrayAccess:(Ljpamb/utils/PositiveInteger<init>I;I)V\n",
  "jpamb.cases.BenchmarkSuite.safeDivision:(",
  "Ljpamb/utils/PositiveInteger<init>I;Ljpamb/utils/PositiveInteger<init>I;)V\n",
  "jpamb.cases.BenchmarkSuite.knownPositive:(Ljpamb/utils/PositiveInteger<init>I;)V\n",
  "jpamb.cases.BenchmarkSuite.impossibleNegative:(Ljpamb/utils/PositiveInteger<init>I;)V\n",
  "jpamb.cases.BenchmarkSuite.complexLogic:(",
  "Ljpamb/utils/PositiveInteger<init>I;Ljpamb/utils/CappedInteger<init>II;)V\n",
  "jpamb.cases.BenchmarkSuite.stepLogic:(Ljpamb/utils/StepInteger<init>II;I)V\n",
  "jpamb.cases.BenchmarkSuite.nestedArrayAccess:(",
  "Ljpamb/utils/PositiveInteger<init>I;Ljpamb/utils/PositiveInteger<init>I;)V\n",
  "jpamb.cases.BenchmarkSuite.redundantChecks:(Ljpamb/utils/PositiveInteger<init>I;)V\n",
  "jpamb.cases.BenchmarkSuite.impossibleRange:(Ljpamb/utils/CappedInteger<init>II;)V\n",
  "jpamb.cases.BenchmarkSuite.sideEffectInCondition:(Ljpamb/utils/PositiveInteger<init>I;)V\n",
  "jpamb.cases.BenchmarkSuite.complexMath:(",
  "Ljpamb/utils/PositiveInteger<init>I;Ljpamb/utils/PositiveInteger<init>I;)V\n",
  "jpamb.cases.BenchmarkSuite.tautologyMath:(Ljpamb/utils/PositiveInteger<init>I;)V\n",
  "jpamb.cases.BenchmarkSuite.contradictionMath:(Ljpamb/utils/PositiveInteger<init>I;)V\n",
  "jpamb.cases.BenchmarkSuite.loopBound:(Ljpamb/utils/PositiveInteger<init>I;)V\n",
  "jpamb.cases.BenchmarkSuite.switchCase:(Ljpamb/utils/PositiveInteger<init>I;)V\n",
  "jpamb.cases.BenchmarkSuite.divideByPositive:(II)V\n",
  "jpamb.cases.BenchmarkSuite.calculateRatio:(II)V\n",
  "jpamb.cases.BenchmarkSuite.processValue:(II)V\n",
  "jpamb.cases.BenchmarkSuite.computeWithCondition:(II)V\n",
  "jpamb.cases.BenchmarkSuite.nestedDivision:(III)V\n",
  "jpamb.cases.BenchmarkSuite.arrayAccess:([II)V\n",
  "jpamb.cases.BenchmarkSuite.multipleOperations:(III)V\n",
  "jpamb.cases.BenchmarkSuite.conditionalDivision:(II)V\n",
  "jpamb.cases.BenchmarkSuite.loopWithDivision:(II)V\n",
  "jpamb.cases.BenchmarkSuite.arrayIndexCalculation:([III)V\n",
  "jpamb.cases.BenchmarkSuite.convertCharToIndex:(CI)V\n",
  "jpamb.cases.BenchmarkSuite.processCharRange:(CCI)V"]

/-- The file of the benchmark methods. -/
def methodsFile : String := "framework/methods.txt"

/-- The first line that contains the name. -/
def findMethod (root list name : String) : Except Fault String :=
  match ((Text.feedLines list).map Text.trim).find? (Text.hasWord name) with
  | some id => .ok id
  | none =>
    .error (.malformed
      s!"No method found for name {Text.quote name} in {root}/{methodsFile}")

/-- Gives the methods of a class their identifiers; a warning for each that has none. -/
def resolveMethods (root list : String) : List Method → List Method × List String
  | [] => ([], [])
  | m :: ms =>
    let (rest, log) := resolveMethods root list ms
    match findMethod root list m.name with
    | .ok id => ({ m with id := some id } :: rest, log)
    | .error f =>
      (m :: rest, s!"Could not resolve method id for {m.name}: {f.message}" :: log)

/-- Gives the methods of a catalog their identifiers. -/
def resolveIds (root list : String) : Catalog → Catalog × List String
  | [] => ([], [])
  | k :: ks =>
    let (ms, log) := resolveMethods root list k.methods
    let (rest, more) := resolveIds root list ks
    ({ k with methods := ms } :: rest, log ++ more)

end Assay.Suite

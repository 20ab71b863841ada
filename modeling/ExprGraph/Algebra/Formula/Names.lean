import ExprGraph.Algebra.Latex.Naming
import ExprGraph.Algebra.Operand
/-!
  The names that formulas know.

  Some names stand for constants, some for functions that can be applied.  A great many others are taken: they
  stand for functions, sets and tools that have no place in an expression.  All that is left are symbols, or
  undefined functions when they are called.

  A function that is not applied can still be written by its name (`functionText?`).
-/

namespace ExprGraph.Formula

/-- The operand of a name that stands for one. -/
def constant? : String → Option Operand
  | "pi" => some (.expression (.constant .pi))
  | "E" => some (.expression .e)
  | "I" => some (.expression .i)
  | "oo" => some (.expression .infinity)
  | "zoo" => some (.expression .complexInfinity)
  | "nan" => some (.expression .undefined)
  | "true" => some (.expression (.truth true))
  | "false" => some (.expression (.truth false))
  | "True" => some (.truth true)
  | "False" => some (.truth false)
  | "None" => some .absent
  | _ => none

/-- The function of a name that can be applied to one expression. -/
def function? : String → Option (Algebra → Algebra)
  | "sin" => some Algebra.sinOf
  | "cos" => some Algebra.cosOf
  | "sinh" => some Algebra.sinhOf
  | "cosh" => some Algebra.coshOf
  | "exp" => some Algebra.expOf
  | "log" | "ln" => some Algebra.logOf
  | "sqrt" => some Algebra.sqrtOf
  | "Abs" | "abs" => some Algebra.absOf
  | "re" => some Algebra.realPart
  | "im" => some Algebra.imaginaryPart
  | _ => none

/-- Names of functions; applied they are more than a name, but many have no place in an expression. -/
def functionNames : List String :=
  ["Abs", "Chi", "Ci", "DiracDelta", "E1", "Ei", "FallingFactorial", "Heaviside", "KroneckerDelta", "LambertW",
   "LeviCivita", "Li", "Max", "Min", "Mod", "RisingFactorial", "Shi", "Si", "acos", "acosh", "acot", "acoth",
   "acsc", "acsch", "adjoint", "airyai", "airybi", "andre", "appellf1", "arg", "asec", "asech", "asin", "asinh",
   "atan", "atan2", "atanh", "bell", "bernoulli", "besseli", "besselj", "besselk", "bessely", "beta", "betainc",
   "binomial", "carmichael", "catalan", "ceiling", "chebyshevt", "chebyshevu", "conjugate", "cos", "cosh", "cot",
   "coth", "csc", "csch", "digamma", "erf", "erf2", "erfc", "erfi", "erfinv", "euler", "exp", "exp_polar",
   "expint", "factorial", "factorial2", "ff", "fibonacci", "floor", "frac", "fresnelc", "fresnels", "gamma",
   "gegenbauer", "genocchi", "hankel1", "hankel2", "harmonic", "hermite", "hn1", "hn2", "hyper", "im", "jacobi",
   "jn", "laguerre", "legendre", "lerchphi", "li", "ln", "log", "loggamma", "lowergamma", "lucas", "mathieuc",
   "mathieus", "meijerg", "mobius", "motzkin", "multigamma", "partition", "polygamma", "polylog", "primenu",
   "primeomega", "primepi", "principal_branch", "re", "rf", "riemann_xi", "sec", "sech", "sign", "sin", "sinc",
   "sinh", "stieltjes", "subfactorial", "tan", "tanh", "totient", "transpose", "tribonacci", "trigamma",
   "uppergamma", "yn", "zeta"]

/-- Functions that keep a symbol as their argument. -/
def plainFunctions : List String :=
  ["tan", "cot", "sec", "csc", "asin", "acos", "atan", "acot", "tanh", "coth", "asinh", "acosh", "atanh", "erf",
   "erfc"]

/-- Names that stand for something else than a symbol, an expression or a function: sets, collections, and
    tools. -/
def toolNames : List String :=
  ["AccumBounds", "Add", "Adjoint", "And", "Array", "Atom", "Basic", "BlockMatrix", "CC", "Catalan", "Circle",
   "Complement", "Complexes", "Contains", "Curve", "Derivative", "Determinant", "Dict", "Domain", "DotProduct",
   "Dummy", "EX", "Ellipse", "EmptySet", "Eq", "Equality", "Equivalent", "EulerGamma", "Expr", "FF", "FU",
   "FiniteField", "FiniteSet", "Float", "Function", "GF", "Ge", "GoldenRatio", "GramSchmidt", "GreaterThan",
   "Gt", "ITE", "Id", "Identity", "Idx", "Implies", "Indexed", "IndexedBase", "Integer", "Integers", "Integral",
   "Intersection", "Interval", "Inverse", "LC", "LM", "LT", "Lambda", "Le", "LessThan", "Limit", "Line", "Lt",
   "MatAdd", "MatMul", "MatPow", "Matrix", "MatrixExpr", "MatrixSymbol", "Monomial", "Mul", "N", "Nand",
   "Naturals", "Naturals0", "Ne", "Nor", "Not", "Number", "NumberSymbol", "O", "Or", "Order", "Ordinal",
   "POSform", "Parabola", "Permanent", "Piecewise", "Plane", "Point", "Point2D", "Point3D", "Poly", "Polygon",
   "Pow", "PowerSet", "Predicate", "Product", "ProductSet", "PurePoly", "Q", "QQ", "QQ_I", "Quaternion", "RR",
   "Range", "Rational", "Rationals", "Ray", "RealNumber", "Reals", "Rel", "Rem", "RootOf", "RootSum", "S",
   "SOPform", "Segment", "SeqAdd", "SeqFormula", "SeqMul", "SeqPer", "Set", "Sieve", "Subs", "Sum", "Symbol",
   "Trace", "Transpose", "Triangle", "TribonacciConstant", "Tuple", "Unequality", "Union", "UniversalSet",
   "Wild", "Xor", "Ynm", "ZZ", "ZZ_I", "ZeroMatrix", "Znm", "abs", "abundance", "all", "any", "apart",
   "approximants", "are_similar", "arity", "ask", "assuming", "banded", "bin", "blockcut", "cancel",
   "casoratian", "cbrt", "centroid", "chr", "cofactors", "collect", "combsimp", "comp", "compose", "composite",
   "compositepi", "content", "convolution", "count_ops", "cse", "decompose", "deg", "degree", "denom", "det",
   "diag", "diff", "dir", "discriminant", "div", "divisors", "divmod", "dsolve", "evaluate", "expand", "exquo",
   "eye", "factor", "factor_list", "factorint", "factorrat", "fft", "field", "flatten", "format", "fps",
   "fraction", "fu", "fwht", "gammasimp", "gcd", "gcd_list", "gcdex", "gff", "grevlex", "grlex", "groebner",
   "group", "gruntz", "half_gcdex", "hash", "hessian", "hex", "horner", "hyperexpand", "id", "idiff", "ifft",
   "ifwht", "igcd", "igrevlex", "igrlex", "ilcm", "ilex", "imageset", "input", "integer_log", "integer_nthroot",
   "integrate", "interpolate", "intersection", "intervals", "intt", "invert", "isolate", "isprime", "iter",
   "jordan_cell", "kronecker_product", "latex", "lcm", "lcm_list", "len", "lex", "limit", "limit_seq",
   "line_integrate", "linsolve", "logcombine", "marcumq", "max", "maximum", "min", "minimum", "minpoly",
   "mod_inverse", "monic", "multiplicity", "n_order", "next", "nextprime", "nfloat", "nonlinsolve",
   "npartitions", "nroots", "nsimplify", "nsolve", "ntt", "num_digits", "numer", "oct", "ones", "open", "ord",
   "ord0", "ordered", "pdiv", "pdsolve", "per", "perfect_power", "periodicity", "plot", "polarify",
   "pollard_rho", "poly", "posify", "postfixes", "pow", "powdenest", "powsimp", "pquo", "prefixes", "prem",
   "pretty", "preview", "prevprime", "prime", "primefactors", "primerange", "primitive", "primitive_root",
   "primorial", "print", "prod", "product", "quo", "rad", "radsimp", "random_poly", "randprime", "ratsimp",
   "rcollect", "real_root", "real_roots", "reduced", "rem", "repr", "reshape", "residue", "resultant", "ring",
   "root", "rootof", "roots", "rotations", "round", "rsolve", "satisfiable", "separatevars", "sequence",
   "series", "sfield", "shape", "sift", "signsimp", "simplify", "singularities", "solve", "solve_linear",
   "solveset", "sorted", "sqf", "sqf_list", "sqf_norm", "sqf_part", "sqrt", "sqrt_mod", "sqrtdenest", "sring",
   "stationary_points", "sturm", "subresultants", "subsets", "substitution", "sum", "summation", "symbols",
   "symmetrize", "take", "tensorproduct", "terms_gcd", "test", "to_cnf", "to_dnf", "to_nnf", "together",
   "topological_sort", "trace", "trailing", "trigsimp", "trunc", "unflatten", "unpolarify", "use", "var",
   "variations", "vectorize", "vfield", "viete", "vring", "wronskian", "xfield", "xring", "zeros"]

/-- The name stands for something else than a symbol. -/
def isTaken (s : String) : Bool := functionNames.contains s || toolNames.contains s

/-- The name of a function in LaTeX. -/
def functionText? (s : String) : Option String :=
  if functionNames.contains s then
    some (match s with
      | "gamma" => "\\Gamma"
      | "lowergamma" => "\\gamma"
      | "beta" => "\\operatorname\x7bB\x7d"
      | "DiracDelta" => "\\delta"
      | "ln" => Latex.functionName "log"
      | s => Latex.functionName s)
  else none

end ExprGraph.Formula

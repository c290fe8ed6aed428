import Mathlib.Data.List.Induction
import Svnsrv.GetoptRuns

/-!
# The command line of svnsrv

The option loop of `main` in main.cc, over the vector that `SavedArgv` copies, which
has no null pointer at its end. `getopt_long` is the one of argv_getopt.inl, which
Argv.hpp chooses for the MSVC build (`REPLACE_GETOPT_LONG`); the Makefile's build calls
that of the C library.
-/

namespace Svnsrv.Launch

open CText Getopt
set_option autoImplicit false

def given (ch : Int) (es : List (Int × Outputs)) : Bool := es.any fun e => e.1 = ch

end Svnsrv.Launch

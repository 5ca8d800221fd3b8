import LittleLang.Command.World
import LittleLang.Main
import LittleLang.Proofs.Command.Composition
import LittleLang.Proofs.Command.Confinement
import LittleLang.Proofs.Command.Replacing
import LittleLang.Proofs.Command.Tracing
import LittleLang.Proofs.Compile.Faithful
import LittleLang.Proofs.Compile.Joining
import LittleLang.Proofs.Parse.LastRules
import LittleLang.Proofs.Parse.Onward
import LittleLang.Proofs.Print.Renderable
import LittleLang.Proofs.Render.Layering
import LittleLang.Proofs.Render.Ordering
import LittleLang.Proofs.Scan.Covering
import LittleLang.Proofs.Scan.FirstRules
import LittleLang.Proofs.Scan.LongestRun
import LittleLang.Proofs.Scan.Onward
import LittleLang.Proofs.Spelling.Counting
import LittleLang.Proofs.Spelling.Resuming
import LittleLang.Proofs.Spelling.Theorems
import LittleLang.Proofs.Syntax.Depth
import LittleLang.Proofs.Syntax.Resuming
import LittleLang.Proofs.Syntax.Sentences
import LittleLang.Proofs.Syntax.Theorems
import LittleLang.Script.Parse
import LittleLang.Script.Render

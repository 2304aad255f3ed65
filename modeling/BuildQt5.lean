import BuildQt5.Shell.Fs
import BuildQt5.Shell.Text
import BuildQt5.Shell.Prog
import BuildQt5.Shell.Logic
import BuildQt5.Shell.Frame
import BuildQt5.Shell.Exec
import BuildQt5.Scripts.Env
import BuildQt5.Scripts.Common
import BuildQt5.Scripts.Fetch
import BuildQt5.Scripts.Steps
import BuildQt5.Scripts.Platforms
import BuildQt5.Stamps
import BuildQt5.Clean
import BuildQt5.Machine
import BuildQt5.Sffg
import BuildQt5.Failures
import BuildQt5.Shell.Rely
import BuildQt5.Integrity
import BuildQt5.Sharing
import BuildQt5.Shell.Eval
import BuildQt5.Download
import BuildQt5.Shell.Glob
import BuildQt5.BuildList
import BuildQt5.Shell.Whole
import BuildQt5.Deploy
import BuildQt5.Runtime
import BuildQt5.Packaging
import BuildQt5.Projects
import BuildQt5.Shell.Couple
import BuildQt5.Leftovers
import BuildQt5.Sources
import BuildQt5.Vendor
import BuildQt5.Digests
import BuildQt5.Shell.Echo
import BuildQt5.ConfigText
import BuildQt5.SearchPaths
import BuildQt5.Toolchain
import BuildQt5.Patching
import BuildQt5.Trees
import BuildQt5.Shell.Tidy
import BuildQt5.Scripts.Reports
import BuildQt5.Invocation
import BuildQt5.Confined
import BuildQt5.Shell.Crowd
import BuildQt5.Concurrent
import BuildQt5.Increment
import BuildQt5.Shell.Plan
import BuildQt5.Compile
import BuildQt5.Certificate
import BuildQt5.Packages
import BuildQt5.Locking
import BuildQt5.Phases

import Zeos.Proof.Image
import Zeos.Proof.Isolation
import Zeos.Proof.Leaks
import Zeos.Proof.Protection
import Zeos.Proof.Partition
import Zeos.Proof.Idle
import Zeos.Proof.States
import Zeos.Proof.Destroy
import Zeos.Proof.Lookup
import Zeos.Proof.Keyboard
import Zeos.Proof.Pages
import Zeos.Proof.Formation
import Zeos.Proof.Access
import Zeos.Proof.Stacks
import Zeos.Proof.Copies
import Zeos.Proof.Hits
import Zeos.Proof.AtOnce
import Zeos.Proof.Victory
import Zeos.Proof.FireControl
import Zeos.Proof.Crossing
import Zeos.Proof.Intervals
import Zeos.Proof.FrameInverse
import Zeos.Proof.Console
import Zeos.Proof.Write
import Zeos.Proof.Handler
import Zeos.Proof.Wrappers
import Zeos.Proof.Interrupts
import Zeos.Proof.Coroutines
import Zeos.Proof.FirstRun
import Zeos.Proof.Lists
import Zeos.Proof.Blocks
import Zeos.Proof.Itoa
import Zeos.Proof.Drawing
import Zeos.Bootsect
import Zeos.Build
import Zeos.Lib.While
import Zeos.Proof.Bootsect
import Zeos.Proof.Build
import Zeos.Proof.Loaded

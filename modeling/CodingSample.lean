import CodingSample.S5fs.Lookups
import CodingSample.S5fs.InodeList
import CodingSample.S5fs.Coherence
import CodingSample.S5fs.BlockCount
import CodingSample.Fsmaker.Mounting
import CodingSample.Uthreads.Scheduling
import CodingSample.Uthreads.Reaping
import CodingSample.Uthreads.Refusals
import CodingSample.Uthreads.Conditions
import CodingSample.Snowcast.Framing
import CodingSample.Snowcast.Transport
import CodingSample.Snowcast.Identifiers
import CodingSample.Snowcast.Survival
import CodingSample.Snowcast.Replies
import CodingSample.Mm.Pressure
import CodingSample.Mm.Page
import CodingSample.Mm.PageCalls
import CodingSample.Mm.PagetableRuns
import CodingSample.Mm.SlabObjects
import CodingSample.Vfs.Getdent
import CodingSample.Ramfs.Readdir
import CodingSample.S5fs.Readdir
import CodingSample.Raytracing.Round
import CodingSample.Raytracing.Bounding
import CodingSample.Raytracing.Overrun
import CodingSample.Raytracing.Building
import CodingSample.Raytracing.Loading
import CodingSample.Raytracing.SameTraversal
import CodingSample.Dropbox.Agreement
import CodingSample.Dropbox.Confinement
import CodingSample.Dropbox.Registration
import CodingSample.Dropbox.Login
import CodingSample.Dropbox.Snapshot
import CodingSample.Dropbox.Removal
import CodingSample.S5fs.Allocation
import CodingSample.S5fs.DirRun
import CodingSample.Ramfs.Listing
import CodingSample.Ramfs.Processes
import CodingSample.S5fs.Processes
import CodingSample.Util.Initialized
import CodingSample.Util.Division
